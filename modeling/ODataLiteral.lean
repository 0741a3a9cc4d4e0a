import ODataLiteral.Main
import ODataLiteral.Proofs.Command.Check
import ODataLiteral.Proofs.Command.Report
import ODataLiteral.Proofs.Depth
import ODataLiteral.Proofs.Dispatch
import ODataLiteral.Proofs.Extraction
import ODataLiteral.Proofs.Geo.Opening
import ODataLiteral.Proofs.Geo.Typed
import ODataLiteral.Proofs.Json.Completeness
import ODataLiteral.Proofs.Json.Number
import ODataLiteral.Proofs.Json.String
import ODataLiteral.Proofs.LetterCase
import ODataLiteral.Proofs.Lists
import ODataLiteral.Proofs.Literal.Binary
import ODataLiteral.Proofs.Literal.Duration
import ODataLiteral.Proofs.Literal.Enumeration
import ODataLiteral.Proofs.Literal.Integer
import ODataLiteral.Proofs.Literal.Narrowest
import ODataLiteral.Proofs.Literal.String
import ODataLiteral.Proofs.Literal.Temporal
import ODataLiteral.Proofs.Nesting
import ODataLiteral.Proofs.Position
import ODataLiteral.Proofs.Schema
import ODataLiteral.Proofs.SelfDelimiting
