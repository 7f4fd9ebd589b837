import SigilTemplate.Proofs.Code.Extent
import SigilTemplate.Proofs.Markup.Run
import SigilTemplate.Proofs.Reading.Yields
import SigilTemplate.Reading.Template

/-!
The grammar of templates, as relations between the place where something
starts, what is written there and the place after it. A relation for a node
says what stands between its two places; of the nodes inside it only the order
and the spans are told, so that what holds of one node is read off one rule.
`Grown` then says it of a node and of all that is below it.

Everything that reading builds is written by these rules, which is shown in the
modules on soundness. What the rules say of spans, texts and tags follows from
the rules alone.
-/

namespace SigilTemplate
open Text

/-- Nodes in the order of their spans between two places, perhaps with other text around them. -/
inductive InOrder : Cursor → List Node → Cursor → Prop
  | nil {c d : Cursor} (le : c ≤ d) : InOrder c [] d
  | cons {c x y d : Cursor} {node : Node} {rest : List Node} (le : c ≤ x) (lt : x < y)
      (span : node.span = x.spanTo y) (order : InOrder y rest d) : InOrder c (node :: rest) d

/-- A place where markup gives way to a construct. -/
def Cursor.AtConstruct (c : Cursor) : Prop := c.atTagClose = true ∨ c.atTagOpen = true ∨ c.atSigil = true

/-- A place where markup goes on: neither a construct nor the end of the region. -/
def AtText (mode : TextMode) (state : TextState) (c : Cursor) : Prop :=
  ¬c.AtConstruct ∧ ∃ ch, c.peek = some ch ∧ endAt? mode state ch = none

/-- The nodes of a region from `c` on, up to some place and with what their text has opened there. -/
inductive Items (mode : TextMode) (c : Cursor) : List Node → TextState → Cursor → Prop
  | start : Items mode c [] {} c
  | text {nodes : List Node} {state : TextState} {d : Cursor} (items : Items mode c nodes state d)
      (atText : AtText mode state d) :
      Items mode c
        (nodes ++ [⟨.text (String.ofList (textRun mode state d).content), d.spanTo (textRun mode state d).after⟩])
        (textRun mode state d).state (textRun mode state d).after
  | construct {nodes : List Node} {state : TextState} {d e : Cursor} {node : Node}
      (items : Items mode c nodes state d) (atConstruct : d.AtConstruct) (lt : d < e)
      (span : node.span = d.spanTo e) (other : ∀ content, node.form ≠ .text content) :
      Items mode c (nodes ++ [node]) state e

/-- A block from its `{` to the place after the `}` that closes it. -/
inductive Block (brace : Cursor) (body : List Node) : Cursor → Prop
  | closed {state : TextState} {close : Cursor} (opens : brace.peek = some '{')
      (items : Items .braced brace.next body state close) (ends : endAt? .braced state '}' = some .closeBrace)
      (closes : close.peek = some '}') : Block brace body close.next

/-- A keyword from its sigil to the place after it; the `if` of an `else if` has no sigil. -/
inductive Opens : Keyword → Cursor → Cursor → Prop
  | sigil {keyword : Keyword} {c : Cursor} (sigil : c.atSigil = true)
      (word : Keyword.recognize? c.next.rest = some keyword) : Opens keyword c c.next.skipIdent
  | chained {c : Cursor} (word : Keyword.recognize? c.rest = some .ifBlock) : Opens .ifBlock c (c.skip 2)

/-- The sigil of an expression, with the mark for raw output or without. -/
def SigilTo (raw : Bool) (c d : Cursor) : Prop := c.Reads (if raw then ['@', '#'] else ['@']) d

/-- A directive from the place after its keyword. -/
inductive DirectiveFrom (c : Cursor) : Directive Node → Cursor → Prop
  | layout {directive : Directive Node} {after : Cursor} (read : layoutDirective c = .ok (directive, after)) :
      DirectiveFrom c directive after
  | useFile {directive : Directive Node} {after : Cursor} (read : useDirective c = .ok (directive, after)) :
      DirectiveFrom c directive after
  | includeFile {directive : Directive Node} {after : Cursor}
      (read : stringDirective .includeFile c = .ok (directive, after)) : DirectiveFrom c directive after
  | render {directive : Directive Node} {after : Cursor}
      (read : stringDirective .render c = .ok (directive, after)) : DirectiveFrom c directive after
  | renderBody {directive : Directive Node} {after : Cursor}
      (read : bareDirective .renderBody c = .ok (directive, after)) : DirectiveFrom c directive after
  | childContent {directive : Directive Node} {after : Cursor}
      (read : bareDirective .childContent c = .ok (directive, after)) : DirectiveFrom c directive after
  | sectionValue {room : Nat} {arguments : Code.Enclosed} {directive : Directive Node}
      (opens : c.peek = some '(') (enclosed : Code.enclosed room c = .ok arguments)
      (value : sectionValue? arguments.inner = some directive) : DirectiveFrom c directive arguments.after
  | sectionBlock {name : Fragment} {brace after : Cursor} {body : List Node}
      (head : sectionHead c = .ok (name, brace)) (block : Block brace body after) :
      DirectiveFrom c (.sectionBlock name body) after
  | raw {close : Cursor} (opens : c.skipBlank.peek = some '{')
      (closes : rawClose? 1 c.skipBlank.next.pos c.skipBlank.next.rest = some close) :
      DirectiveFrom c (.raw (.between c.skipBlank.next close)) close.next
  | function {room : Nat} {name parameters : Fragment} {brace after : Cursor} {body : List Node}
      (head : functionHead room c = .ok ((name, parameters), brace)) (block : Block brace body after) :
      DirectiveFrom c (.function name parameters body) after

/-- What follows the body of an `if`. -/
inductive Otherwise (c : Cursor) : Option (ElseClause Node) → Cursor → Prop
  | none (missing : ∀ afterElse, c.skipBlank.eatText? ['e', 'l', 's', 'e'] = some afterElse →
      afterElse.skipBlank.peek ≠ some '{' ∧ ¬(afterElse.pos < afterElse.skipBlank.pos ∧
        Keyword.recognize? afterElse.skipBlank.rest = some .ifBlock)) : Otherwise c none c
  | block {afterElse after : Cursor} {body : List Node}
      (word : c.skipBlank.eatText? ['e', 'l', 's', 'e'] = some afterElse)
      (block : Block afterElse.skipBlank body after) : Otherwise c (some (.block body)) after
  | chained {afterElse after : Cursor} {node : Node}
      (word : c.skipBlank.eatText? ['e', 'l', 's', 'e'] = some afterElse)
      (gap : afterElse.pos < afterElse.skipBlank.pos)
      (next : Keyword.recognize? afterElse.skipBlank.rest = some .ifBlock) (lt : afterElse.skipBlank < after)
      (span : node.span = afterElse.skipBlank.spanTo after) (other : ∀ content, node.form ≠ .text content) :
      Otherwise c (some (.chained node)) after

/-- The pattern of an arm ends at an arrow, and something stands before it. -/
def ArrowAt (c arrow : Cursor) : Prop :=
  Code.patternEnd c = .arrow arrow ∧ (c.textTo arrow).all isBlank = false

/-- The place where the body of an arm starts. -/
def Cursor.afterArrow (arrow : Cursor) : Cursor := (arrow.skip 2).skipBlank

/-- An arm from its pattern to the place after its body. -/
inductive ArmFrom (c : Cursor) : Arm Node → Cursor → Prop
  | block {arrow after : Cursor} {body : List Node} (pattern : ArrowAt c arrow)
      (block : Block arrow.afterArrow body after) :
      ArmFrom c ⟨.trimmed (c.upTo arrow), .block body, c.spanTo after⟩ after
  | inline {arrow after : Cursor} {nodes : List Node} {state : TextState} {ch : Char} {stop : RegionEnd}
      (pattern : ArrowAt c arrow) (items : Items .arm arrow.afterArrow nodes state after)
      (head : after.peek = some ch) (ends : endAt? .arm state ch = some stop)
      (whole : stop = .closeBrace ∨ stop = .comma) :
      ArmFrom c
        ⟨.trimmed (c.upTo arrow), .inline (trimTail nodes),
          ⟨c.pos, ((trimTail nodes).getLast?.map (·.span.stop)).getD (arrow.skip 2).pos⟩⟩ after
  | unbalanced {arrow after : Cursor} {nodes : List Node} {state : TextState} {expected : Char}
      (pattern : ArrowAt c arrow) (items : Items .arm arrow.afterArrow nodes state after)
      (head : after.peek = some '}') (ends : endAt? .arm state '}' = some (.unbalanced expected)) :
      ArmFrom c
        ⟨.trimmed (c.upTo arrow),
          .inline [⟨.error (.unbalanced expected '}') nodes, arrow.afterArrow.spanTo after⟩], c.spanTo after⟩ after

/-- The arms between braces, from the `{` to the place after the last of them and its comma. -/
inductive Arms (brace : Cursor) : List (Arm Node) → Cursor → Prop
  | start : Arms brace [] brace.next
  | more {arms : List (Arm Node)} {arm : Arm Node} {place after : Cursor} (earlier : Arms brace arms place)
      (next : ArmFrom place.skipBlank arm after) :
      Arms brace (arms ++ [arm]) ((after.skipBlank.eat? ',').getD after)

/-- A statement from the place after its keyword. -/
inductive StatementFrom : Keyword → Cursor → Statement Node → Cursor → Prop
  | conditional {c brace middle after : Cursor} {condition : Fragment} {body : List Node}
      {otherwise : Option (ElseClause Node)} (head : statementHead c = .ready condition brace)
      (block : Block brace body middle) (tail : Otherwise middle otherwise after) :
      StatementFrom .ifBlock c (.conditional condition body otherwise) after
  | forLoop {c brace after : Cursor} {header : Fragment} {body : List Node}
      (head : statementHead c = .ready header brace) (block : Block brace body after) :
      StatementFrom .forLoop c (.forLoop header body) after
  | whileLoop {c brace after : Cursor} {header : Fragment} {body : List Node}
      (head : statementHead c = .ready header brace) (block : Block brace body after) :
      StatementFrom .whileLoop c (.whileLoop header body) after
  | matchOn {c brace place : Cursor} {subject : Fragment} {arms : List (Arm Node)}
      (head : statementHead c = .ready subject brace) (between : Arms brace arms place)
      (closes : place.skipBlank.peek = some '}') :
      StatementFrom .matchOn c (.matchOn subject arms) place.skipBlank.next
  | continueLoop {c : Cursor} : StatementFrom .continueLoop c .continueLoop c
  | breakLoop {c : Cursor} : StatementFrom .breakLoop c .breakLoop c

/-- The value of an attribute. -/
inductive ValueFrom (c : Cursor) : ArgumentValue Node → Cursor → Prop
  | string {text : Fragment} {after : Cursor} (read : stringLiteral c = .ok (text, after)) :
      ValueFrom c (.string text) after
  | block {body : List Node} {after : Cursor} (block : Block c body after) : ValueFrom c (.block body) after
  | expression {node : Node} {after : Cursor} (sigil : c.atSigil = true) (lt : c < after)
      (span : node.span = c.spanTo after) : ValueFrom c (.expression node) after
  | constant {value : ArgumentValue Node} (word : constantValue? (c.textTo (c.skipWhile isWordPart)) = some value) :
      ValueFrom c value (c.skipWhile isWordPart)

/-- An attribute from its name to the place after its value. -/
inductive AttributeFrom (c : Cursor) : Argument Node → Cursor → Prop
  | flag : AttributeFrom c
      ⟨.between c (c.skipWhile isAttributePart), .flag, c.spanTo (c.skipWhile isAttributePart)⟩
      (c.skipWhile isAttributePart)
  | valued {equals after : Cursor} {value : ArgumentValue Node}
      (sign : (c.skipWhile isAttributePart).skipBlank.eat? '=' = some equals)
      (reads : ValueFrom equals.skipBlank value after) :
      AttributeFrom c ⟨.between c (c.skipWhile isAttributePart), value, c.spanTo after⟩ after

/-- The attributes of an opening tag, from the end of its name to the place after the last of them. -/
inductive Attributes (c : Cursor) : List (Argument Node) → Cursor → Prop
  | start : Attributes c [] c
  | more {arguments : List (Argument Node)} {argument : Argument Node} {place after : Cursor}
      (earlier : Attributes c arguments place) (gap : place.pos < place.skipBlank.pos)
      (head : place.skipBlank.peek.any isIdentStart = true)
      (next : AttributeFrom place.skipBlank argument after) : Attributes c (arguments ++ [argument]) after

/-- A construct from its first character to the place after it. -/
inductive Spells : Cursor → Node → Cursor → Prop
  | comment {c close : Cursor} (opens : c.Reads ['@', '*'] (c.skip 2))
      (closes : (c.skip 2).commentClose? = some close) :
      Spells c ⟨.comment (String.ofList ((c.skip 2).textTo close)), c.spanTo (close.skip 2)⟩ (close.skip 2)
  | codeBlock {c opener : Cursor} {room : Nat} {fragment : Code.Enclosed} (sigil : SigilTo false c opener)
      (opens : opener.peek = some '{') (enclosed : Code.enclosed room opener = .ok fragment) :
      Spells c ⟨.codeBlock (String.ofList fragment.inner.rest), c.spanTo fragment.after⟩ fragment.after
  | paren {c opener : Cursor} {room : Nat} {raw : Bool} {fragment : Code.Enclosed} (sigil : SigilTo raw c opener)
      (opens : opener.peek = some '(') (enclosed : Code.enclosed room opener = .ok fragment) :
      Spells c ⟨.expression ⟨.paren, String.ofList fragment.inner.rest, raw⟩, c.spanTo fragment.after⟩ fragment.after
  | simple {c name : Cursor} {room : Nat} {raw : Bool} {chain : Code.Chain} (sigil : SigilTo raw c name)
      (read : Code.chain? room name = .ok (some chain)) :
      Spells c
        ⟨.expression ⟨.simple chain.refs chain.segments, String.ofList (name.textTo chain.after), raw⟩,
          c.spanTo chain.after⟩ chain.after
  | parameters {c opener after : Cursor} {room : Nat} {fragment : Code.Enclosed} {list : List Parameter}
      (sigil : SigilTo false c opener) (opens : opener.peek = some '(')
      (enclosed : Code.enclosed room opener = .ok fragment) (entries : templateParameters? fragment.inner = some list)
      (ends : fragment.after.skipBlank.eat? ';' = some after) : Spells c ⟨.parameters list, c.spanTo after⟩ after
  | directive {c place after : Cursor} {directive : Directive Node}
      (opens : Opens directive.keyword c place) (read : DirectiveFrom place directive after) :
      Spells c ⟨.directive directive, c.spanTo after⟩ after
  | statement {c place after : Cursor} {keyword : Keyword} {statement : Statement Node}
      (opens : Opens keyword c place) (read : StatementFrom keyword place statement after) :
      Spells c ⟨.statement statement, c.spanTo after⟩ after
  | selfClosing {c place after : Cursor} {arguments : List (Argument Node)} (opens : c.atTagOpen = true)
      (attributes : Attributes c.next.skipTagName arguments place)
      (ends : place.skipBlank.eatText? ['/', '>'] = some after) :
      Spells c ⟨.component ⟨.between c.next c.next.skipTagName, .tag, arguments, [], true⟩, c.spanTo after⟩ after
  | tag {c place inside close : Cursor} {arguments : List (Argument Node)} {mode : TextMode} {state : TextState}
      {body : List Node} (opens : c.atTagOpen = true) (attributes : Attributes c.next.skipTagName arguments place)
      (ends : place.skipBlank.eat? '>' = some inside) (items : Items mode inside body state close)
      (closes : close.atTagClose = true)
      (same : (readCloseTag close).name = (Fragment.between c.next c.next.skipTagName).text)
      (complete : (readCloseTag close).complete = true) :
      Spells c
        ⟨.component ⟨.between c.next c.next.skipTagName, .tag, arguments, body, false⟩,
          c.spanTo (readCloseTag close).after⟩ (readCloseTag close).after
  | call {c after : Cursor} {room : Nat} {fragment : Code.Enclosed} {arguments : List (Argument Node)}
      {body : List Node} (sigil : c.atSigil = true) (opens : c.next.skipIdent.peek = some '(')
      (enclosed : Code.enclosed room c.next.skipIdent = .ok fragment)
      (entries : callArguments? fragment.inner = some arguments)
      (block : Block fragment.after.skipBlank body after) :
      Spells c
        ⟨.component ⟨.between c.next c.next.skipIdent, .call, arguments, body, false⟩, c.spanTo after⟩ after
  | error {c d : Cursor} {cause : Malformation} {children : List Node} (lt : c < d)
      (order : InOrder c children d) : Spells c ⟨.error cause children, c.spanTo d⟩ d

/-- A node of a source, written by the rules, with everything below it. -/
inductive Grown (source : List Char) : Node → Prop
  | text {c d : Cursor} {content : String} (place : Cursor.ofText source ≤ c) (lt : c < d)
      (reads : c.Reads (escape content.toList) d) : Grown source ⟨.text content, c.spanTo d⟩
  | construct {c d : Cursor} {node : Node} (place : Cursor.ofText source ≤ c) (spells : Spells c node d)
      (below : ∀ child ∈ node.children, Grown source child) : Grown source node

end SigilTemplate
