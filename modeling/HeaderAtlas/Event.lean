import HeaderAtlas.Model.Record
import HeaderAtlas.Token.Basic

/-!
# Events

What is worth telling of a run, with how severe it is and how it is worded.
-/

namespace HeaderAtlas

/-- How severe an event is. -/
inductive Severity where
  | warn
  | info
  | debug
  | trace
  deriving DecidableEq, Repr

namespace Severity

/-- The place of a severity, the most severe first. -/
def rank : Severity → Nat
  | warn => 0
  | info => 1
  | debug => 2
  | trace => 3

/-- The heading of a line of this severity. -/
def label : Severity → String
  | warn => "WARN"
  | info => "INFO"
  | debug => "DEBUG"
  | trace => "TRACE"

end Severity

/-- A declaration that needs a name. -/
inductive NamedThing where
  | type
  | enum
  | fakeType
  deriving DecidableEq, Repr

/-- A declaration that needs a name, in words. -/
def NamedThing.text : NamedThing → String
  | .type => "type"
  | .enum => "enum"
  | .fakeType => "fake type"

/-- Something that happened while headers were read or types were settled and ordered. -/
inductive Event where
  | registeredTwice (name : String)
  | registered (name : String) (id : TypeId)
  | forwardReference (name : String) (id : TypeId)
  | settled (substituted external : Nat)
  | externalTypes (names : List String)
  | levelsSettled (round rounds : Nat)
  | ignoredTemplateArg (kind : Token.Kind)
  | ignoredInEnumValue (kind : Token.Kind)
  | unknownLiteral (name : String)
  | emptyEnum (name : String)
  | enumWithoutBody (name : String)
  | skippedStatement (location : Location)
  | noMemberName (typeName : String) (location : Location)
  | unannotatedCallable (name : String)
  | methodBound (name : String) (parameters depth : Nat)
  | propertyRead (name : String) (depth : Nat)
  | unknownArrayLength (length name : String)
  | forwardDeclaration (name : String)
  | markerWithoutType (location : Location)
  | unnamed (thing : NamedThing) (location : Location)
  | unterminatedBody (name : String)
  | propertyWithoutType (name : String) (location : Location)
  | unreadableType (name : String) (location : Location) (type : String)
  | unexpectedInFakeType (kind : Token.Kind) (name : String)
  | unitsListed (count : Nat) (path : String)
  | scanning (path : String)
  | unitFailed (reason : String)
  | unitsScanned (scanned listed : Nat)
  deriving DecidableEq, Repr

/-- A handle as events show it. -/
def TypeId.text (id : TypeId) : String := s!"TypeId({id.index})"

namespace Event

/-- How severe an event is. -/
def severity : Event → Severity
  | registeredTwice .. | unnamed .. | unterminatedBody .. | propertyWithoutType .. | unreadableType ..
  | unexpectedInFakeType .. | unitFailed .. => .warn
  | settled .. | unitsScanned .. => .info
  | registered .. | forwardReference .. | externalTypes .. | levelsSettled .. | emptyEnum .. | methodBound ..
  | unknownArrayLength .. | unitsListed .. | scanning .. => .debug
  | ignoredTemplateArg .. | ignoredInEnumValue .. | unknownLiteral .. | enumWithoutBody .. | skippedStatement ..
  | noMemberName .. | unannotatedCallable .. | propertyRead .. | forwardDeclaration .. | markerWithoutType .. => .trace

/-- An event in words. -/
def message : Event → String
  | registeredTwice name => s!"type '{name}' registered twice, the later declaration wins"
  | registered name id => s!"registered type '{name}' as " ++ id.text
  | forwardReference name id => s!"forward reference to '{name}' as placeholder " ++ id.text
  | settled substituted external => s!"resolved {substituted} forward references, {external} names left external"
  | externalTypes names => "external types: " ++ ", ".intercalate names
  | levelsSettled round rounds => s!"depth leveling settled after {round} of {rounds} rounds"
  | ignoredTemplateArg kind => "ignoring " ++ kind.trace ++ " in template argument list"
  | ignoredInEnumValue kind => "ignoring " ++ kind.trace ++ " in enum value"
  | unknownLiteral name => s!"unknown enum literal '{name}' reads as 0"
  | emptyEnum name => s!"enum '{name}' has no values and is not registered"
  | enumWithoutBody name => s!"opaque enum '{name}' ignored"
  | skippedStatement location => "skipping statement at " ++ location.text
  | noMemberName typeName location => s!"no member name after type '{typeName}' at " ++ location.text
  | unannotatedCallable name => s!"unannotated callable '{name}' skipped"
  | methodBound name parameters depth => s!"method '{name}' with {parameters} parameters bound at depth {depth}"
  | propertyRead name depth => s!"property '{name}' at depth {depth}"
  | unknownArrayLength length name => s!"array size '{length}' of '{name}' is not a known literal"
  | forwardDeclaration name => s!"forward declaration of '{name}' ignored"
  | markerWithoutType location => "REFLECTED not followed by a type at " ++ location.text
  | unnamed thing location => "malformed declaration at " ++ location.text ++ ": " ++ thing.text ++ " without a name"
  | unterminatedBody name => s!"unterminated body of '{name}'"
  | propertyWithoutType name location => s!"property '{name}' at " ++ location.text ++ " has no type"
  | unreadableType name location type =>
    s!"property '{name}' at " ++ location.text ++ s!" has an unreadable type '{type}'"
  | unexpectedInFakeType kind name => "unexpected " ++ kind.describe ++ s!" in fake type '{name}'"
  | unitsListed count path => s!"{count} units listed in '{path}'"
  | scanning path => s!"scanning '{path}'"
  | unitFailed reason => reason
  | unitsScanned scanned listed => s!"scanned {scanned} of {listed} units"

/-- An event as a line of a log. -/
def line (e : Event) : String := e.severity.label ++ " " ++ e.message

end Event

/-- The lines of a log that shows events of a severity and more severe ones. -/
def logLines (least : Severity) (events : List Event) : List String :=
  (events.filter fun e => e.severity.rank ≤ least.rank).map Event.line

end HeaderAtlas
