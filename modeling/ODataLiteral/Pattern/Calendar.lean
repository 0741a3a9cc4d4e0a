import ODataLiteral.Pattern.Terminals

/-! Dates, times and durations. Every field of a date or a time has its range in its pattern, so no number is computed.
A colon after the minutes, a point after the seconds and a `T` after the day bind:
what they announce must follow. -/
namespace ODataLiteral.Pattern

/-- A year has four digits or more. One that starts with a zero has exactly four. -/
def year : Pattern :=
  optional (plain '-') ++
    ((plain '0' ++ exactly 3 digit ++ notBefore digit) <|>
      (octet Octet.isOneToNine ++ atLeast 3 digit))

def month : Pattern :=
  (plain '0' ++ octet Octet.isOneToNine) <|> (plain '1' ++ octet (Octet.between '0' '2'))

def day : Pattern :=
  (plain '0' ++ octet Octet.isOneToNine) <|>
    (octet (Octet.between '1' '2') ++ digit) <|>
    (plain '3' ++ octet (Octet.between '0' '1'))

def hour : Pattern :=
  (octet (Octet.between '0' '1') ++ digit) <|> (plain '2' ++ octet (Octet.between '0' '3'))

def minute : Pattern := octet (Octet.between '0' '5') ++ digit

def second : Pattern := octet (Octet.between '0' '5') ++ digit

def fractionalSeconds : Pattern := times 1 (some 12) digit

def yearMonthDay : Pattern := year ++ plain '-' ++ month ++ plain '-' ++ day

def timeOfDay : Pattern :=
  hour ++ colon ++ minute ++ whenLedBy colon (second ++ whenLedBy (plain '.') fractionalSeconds)

/-- The zone of a point in time: `Z`, or a signed offset from it. -/
def zone : Pattern := plain 'Z' <|> (sign ++ hour ++ colon ++ minute)

/-- A date alone, which a following `T` would make part of a point in time. -/
def date : Pattern := yearMonthDay ++ notBefore (plain 'T')

def dateTimeOffset : Pattern := yearMonthDay ++ plain 'T' ++ timeOfDay ++ zone

/-- A number and the designator of its unit. -/
def measured (unit : Char) : Pattern := atLeast 1 digit ++ plain unit

/-- Only seconds may have decimals. -/
def measuredSeconds : Pattern :=
  atLeast 1 digit ++ (optional (plain '.' ++ atLeast 1 digit) ++ plain 'S')

/-- Components of the units that are left, until no number follows. After a component only the units behind its own
are left, so a number whose designator is none of these is no match. -/
def components : (left : List Pattern) → Pattern
  | [] => notBefore digit
  | unit :: later => (unit ++ components later) <|> components later

def timeComponents : Pattern :=
  components [measured 'H', measured 'M', measuredSeconds]

/-- Days and a time, of which at least one is there. The `T` in front of the time binds. -/
def durationParts : Pattern :=
  (measured 'D' ++ whenLedBy (plain 'T') timeComponents) <|> (plain 'T' ++ timeComponents)

def duration : Pattern :=
  word "duration" ++ quote ++ optional sign ++ plain 'P' ++ durationParts ++ quote

end ODataLiteral.Pattern
