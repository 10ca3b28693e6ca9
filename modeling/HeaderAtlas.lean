import HeaderAtlas.Text.Blank
import HeaderAtlas.Text.Printable
import HeaderAtlas.Text.Quoted
import HeaderAtlas.Number.Binary
import HeaderAtlas.Number.Decimal
import HeaderAtlas.Number.Shortest
import HeaderAtlas.Token.Basic
import HeaderAtlas.Token.Lexeme
import HeaderAtlas.Token.Compound
import HeaderAtlas.Token.Lexer
import HeaderAtlas.Cursor.Basic
import HeaderAtlas.Cursor.Progress
import HeaderAtlas.Cursor.Walk
import HeaderAtlas.Trait.Value
import HeaderAtlas.Trait.Basic
import HeaderAtlas.Model.Modifiers
import HeaderAtlas.Model.Record
import HeaderAtlas.Model.Table
import HeaderAtlas.Catalog.Basic
import HeaderAtlas.Catalog.Settlement
import HeaderAtlas.Catalog.Builtin
import HeaderAtlas.Catalog.Lineage
import HeaderAtlas.Catalog.Signature
import HeaderAtlas.Emission.Dependency
import HeaderAtlas.Emission.Reach
import HeaderAtlas.Emission.Level
import HeaderAtlas.Emission.Order
import HeaderAtlas.Event
import HeaderAtlas.Recorder
import HeaderAtlas.Declaration.Name
import HeaderAtlas.Declaration.TraitList
import HeaderAtlas.Declaration.Reader
import HeaderAtlas.Declaration.TypeExpr
import HeaderAtlas.Declaration.Method
import HeaderAtlas.Declaration.Member
import HeaderAtlas.Declaration.EnumBody
import HeaderAtlas.Declaration.Header
import HeaderAtlas.Source.Path
import HeaderAtlas.Source.Unit
import HeaderAtlas.Source.Directory
import HeaderAtlas.Listing
import HeaderAtlas.CommandLine
import HeaderAtlas.Main
import HeaderAtlas.Proofs.Catalog.Change
import HeaderAtlas.Proofs.Declaration.Growth
import HeaderAtlas.Proofs.Session
import HeaderAtlas.Proofs.Catalog.Invariant
import HeaderAtlas.Proofs.Catalog.Canonical
import HeaderAtlas.Proofs.Catalog.Settlement
import HeaderAtlas.Proofs.Catalog.Linking
import HeaderAtlas.Proofs.Resolution
import HeaderAtlas.Proofs.WellFormed
import HeaderAtlas.Proofs.Derived
import HeaderAtlas.Proofs.Cursor.Onward
import HeaderAtlas.Proofs.Declaration.Onward
import HeaderAtlas.Proofs.Declaration.Turn
import HeaderAtlas.Proofs.Progress
import HeaderAtlas.Proofs.Enum.Grammar
import HeaderAtlas.Proofs.Enum.Reading
import HeaderAtlas.Proofs.Token.Word
import HeaderAtlas.Proofs.Declaration.Mention
import HeaderAtlas.Proofs.Declaration.Piece
import HeaderAtlas.Proofs.Spelling
import HeaderAtlas.Proofs.Catalog.Twin
import HeaderAtlas.Proofs.Interim
import HeaderAtlas.Proofs.Addition
import HeaderAtlas.Proofs.Token.Span
import HeaderAtlas.Proofs.Token.Rendering
import HeaderAtlas.Proofs.Cursor.Nesting
import HeaderAtlas.Proofs.Cursor.Item
import HeaderAtlas.Proofs.Cursor.Block
import HeaderAtlas.Proofs.Cursor.Passed
import HeaderAtlas.Proofs.Cursor.Rendering
import HeaderAtlas.Proofs.Member.Grammar
import HeaderAtlas.Proofs.Member.Reading
import HeaderAtlas.Proofs.Member.Struct
import HeaderAtlas.Proofs.Member.Method
import HeaderAtlas.Proofs.Declaration.Angle
import HeaderAtlas.Proofs.Declaration.Place
import HeaderAtlas.Proofs.Declaration.Body
import HeaderAtlas.Proofs.Token.Chunk
import HeaderAtlas.Proofs.TraitList
import HeaderAtlas.Proofs.Catalog.Handles
import HeaderAtlas.Proofs.Declaration.Special
import HeaderAtlas.Proofs.Declaration.Step
import HeaderAtlas.Proofs.Declaration.Stepwise
import HeaderAtlas.Proofs.Stored
import HeaderAtlas.Proofs.Made
import HeaderAtlas.Proofs.Visibility
import HeaderAtlas.Proofs.Callable
import HeaderAtlas.Proofs.Containment
import HeaderAtlas.Proofs.Kind
import HeaderAtlas.Proofs.TypeText.Grammar
import HeaderAtlas.Proofs.TypeText.Reading
import HeaderAtlas.Proofs.Reread
import HeaderAtlas.Proofs.Token.Lookahead
import HeaderAtlas.Proofs.Token.Cell
import HeaderAtlas.Proofs.Layout.Spaced
import HeaderAtlas.Proofs.Layout.Relabel
import HeaderAtlas.Proofs.Layout.Alike
import HeaderAtlas.Proofs.Layout.Reading
import HeaderAtlas.Proofs.Layout
import HeaderAtlas.Proofs.Binding
import HeaderAtlas.Proofs.Catalog.Grounded
import HeaderAtlas.Proofs.Emission.Dependency
import HeaderAtlas.Proofs.Emission.Reach
import HeaderAtlas.Proofs.Emission.Level
import HeaderAtlas.Proofs.Token.Filler
import HeaderAtlas.Proofs.Token.Exact
import HeaderAtlas.Proofs.Token.Folding
import HeaderAtlas.Proofs.Token.Run
import HeaderAtlas.Proofs.Token.LineEnding
import HeaderAtlas.Proofs.Cursor.Capture
import HeaderAtlas.Proofs.Cursor.Statement
import HeaderAtlas.Proofs.Cursor.Region
import HeaderAtlas.Proofs.Cursor.Tape
import HeaderAtlas.Proofs.Enum.Precedence
import HeaderAtlas.Proofs.Lineage
import HeaderAtlas.Proofs.Emission.Inheritance
import HeaderAtlas.Proofs.Signature
import HeaderAtlas.Proofs.Token.Integer
import HeaderAtlas.Proofs.Cursor.Text
import HeaderAtlas.Proofs.TraitInteger
