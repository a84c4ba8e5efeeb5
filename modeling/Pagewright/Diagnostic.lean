import Pagewright.Token
import Pagewright.Grammar

set_option autoImplicit false

namespace Pagewright

inductive ScanFault where
  | unmatchedBrace
  | unclosedLiteral
deriving DecidableEq, Repr

def ScanFault.message : ScanFault → String
  | .unmatchedBrace => "unmatched '\x7d'"
  | .unclosedLiteral => "unclosed string literal"

inductive ParseFault where
  /-- A brace stands where a sentence should begin. -/
  | noKeyword (found : Lexeme)
  /-- A sentence begins with something that is no keyword. -/
  | unknownKeyword (token : String)
  | notAccepted (context : Context) (owner : String) (keyword : String)
  | notOpened (owner : String) (found : Lexeme)
  /-- The input ends inside a block. -/
  | notClosed (owner : String)
  | noOperand (construct : Construct) (found : Lexeme)
deriving DecidableEq, Repr

namespace ParseFault

/-- The construct that was looked for. -/
def expected : ParseFault → String
  | .noKeyword _ => "a keyword"
  | .unknownKeyword _ => "a keyword"
  | .notAccepted context _ _ => context.label
  | .notOpened _ _ => "'\x7b'"
  | .notClosed _ => "'\x7d'"
  | .noOperand construct _ => construct.label

/-- Where the construct was looked for, and what stood there. -/
def circumstance : ParseFault → String
  | .noKeyword found => ", found " ++ found.describe
  | .unknownKeyword token => ", found unknown '" ++ token ++ "'"
  | .notAccepted _ owner keyword => " inside " ++ owner ++ ", found '" ++ keyword ++ "'"
  | .notOpened owner found => " after " ++ owner ++ ", found " ++ found.describe
  | .notClosed owner => " to close " ++ owner ++ ", found " ++ Lexeme.endOfInput.describe
  | .noOperand _ found => ", found " ++ found.describe

def message (fault : ParseFault) : String :=
  "expected " ++ fault.expected ++ fault.circumstance

end ParseFault

/-- What a name is used for. -/
inductive Role where
  | handler | table | function
deriving DecidableEq, Repr

def Role.label : Role → String
  | .handler => "handler name"
  | .table => "table name"
  | .function => "function name"

/-- Where a misplaced node would be allowed. -/
inductive Place where
  | insideList | insideFunction | outsideFunction
deriving DecidableEq, Repr

def Place.label : Place → String
  | .insideList => "inside a list"
  | .insideFunction => "inside a fn"
  | .outsideFunction => "outside a fn"

inductive GenerationFault where
  | misplaced (keyword : String) (place : Place)
  | unsupportedInItem (keyword : String)
  | invalidName (role : Role) (name : String)
  /-- The name is taken by the scripts of every page. -/
  | reservedFunction (name : String)
  | repeatedTable (table : String)
  /-- A field has the name of the key column. -/
  | reservedField (field table : String)
  | repeatedField (field table : String)
  | repeatedFunction (name : String)
  | unknownTable (name : String)
deriving DecidableEq, Repr

def GenerationFault.message : GenerationFault → String
  | .misplaced keyword place => "'" ++ keyword ++ "' is only allowed " ++ place.label
  | .unsupportedInItem keyword => "'" ++ keyword ++ "' is not supported inside an item"
  | .invalidName role name => role.label ++ " '" ++ name ++ "' is not a valid identifier"
  | .reservedFunction name => "function name '" ++ name ++ "' is reserved by the runtime"
  | .repeatedTable table => "table '" ++ table ++ "' is declared more than once"
  | .reservedField field table => "field '" ++ field ++ "' of table '" ++ table ++ "' is reserved"
  | .repeatedField field table =>
    "field '" ++ field ++ "' of table '" ++ table ++ "' is declared more than once"
  | .repeatedFunction name => "fn '" ++ name ++ "' is defined more than once"
  | .unknownTable name => "unknown table '" ++ name ++ "'"

inductive Stage where
  | scan | parse | generation
deriving DecidableEq, Repr

def Stage.label : Stage → String
  | .scan => "LexError"
  | .parse => "ParseError"
  | .generation => "GenerationError"

/-- A diagnostic as it is shown. -/
structure Report where
  stage : Stage
  message : String
  pos : Position
  expected : Option String := none
deriving DecidableEq, Repr

namespace Report

/-- The report that also names the construct that was looked for. -/
def expecting (report : Report) (construct : String) : Report :=
  { report with expected := some construct }

/-- One line: the position in brackets, the stage, the message. -/
def display (report : Report) : String :=
  "[" ++ toString report.pos.line ++ ":" ++ toString report.pos.col ++ "] " ++
    report.stage.label ++ ": " ++ report.message

end Report

/-- Why a program does not compile, and where. -/
inductive Diagnostic where
  | scan (pos : Position) (fault : ScanFault)
  | parse (pos : Position) (fault : ParseFault)
  | generation (pos : Position) (fault : GenerationFault)
deriving DecidableEq, Repr

namespace Diagnostic

def pos : Diagnostic → Position
  | .scan pos _ => pos
  | .parse pos _ => pos
  | .generation pos _ => pos

def report : Diagnostic → Report
  | .scan pos fault => ⟨.scan, fault.message, pos, none⟩
  | .parse pos fault => (⟨.parse, fault.message, pos, none⟩ : Report).expecting fault.expected
  | .generation pos fault => ⟨.generation, fault.message, pos, none⟩

end Diagnostic

end Pagewright
