import RuleWalk.Outline
import RuleWalk.Sample.Trees
import RuleWalk.Session
import RuleWalk.Value.Reader

/-!
# A demonstration

Prints the outline of a tree twice, with the catalogue and with rules for two more kinds, then the
names of its identifiers and a statistic.
-/

namespace RuleWalk.Sample

/-- The tree shown when none is given. -/
def program : Value :=
  node 0 "Program"
    [("sourceType", .str "module"),
     ("body", .list ⟨1, none⟩
      [node 2 "VariableDeclaration"
        [("kind", .str "const"),
         ("declarations", .list ⟨3, none⟩
          [node 4 "VariableDeclarator"
            [("id", node 5 "Identifier" [("name", .str "greet")]),
             ("init", node 6 "ArrowFunctionExpression"
              [("id", .null),
               ("params", .list ⟨7, none⟩ [node 8 "Identifier" [("name", .str "name")]]),
               ("body", element)])]])]])]
where
  quasi (n : Nat) (raw : String) : Value :=
    node n "TemplateElement" [("value", .dict ⟨n + 1, none⟩ [("raw", .str raw)])]
  element : Value :=
    node 9 "JSXElement"
      [("openingElement", node 10 "JSXOpeningElement"
        [("name", node 11 "JSXIdentifier" [("name", .str "b")])]),
       ("children", .list ⟨12, none⟩
        [node 13 "JSXExpressionContainer"
          [("expression", node 14 "TemplateLiteral"
            [("quasis", .list ⟨15, none⟩ [quasi 16 "hi ", quasi 18 ""]),
             ("expressions", .list ⟨20, none⟩
              [node 21 "Identifier" [("name", .str "name")]])])]]),
       ("closingElement", node 22 "JSXClosingElement"
        [("name", node 23 "JSXIdentifier" [("name", .str "b")])])]

variable {σ : Type}

/-- The rules for the two kinds that the catalogue lacks. -/
def extraRules : List (String × List FieldSpec) :=
  [("JSXElement",
      [.one (.str "openingElement"), .many (.str "children"), .one (.str "closingElement")]),
   ("JSXExpressionContainer", [.one (.str "expression")])]

/-- Prints an outline with one registry of the session. -/
def outline (r : Nat) (root : Value) (fuel : Nat) : Act Entry (Page (Session σ)) Unit :=
  Act.zoom (fun s => ⟨s.under.scene r, s.printed⟩)
    (fun s t => ⟨s.under.putScene r t.under, t.printed⟩) (Outline.draw root fuel)

/-- The names of the identifiers that a sequence gives, as they come. -/
def nameTurn (i fuel : Nat) (names : List Value) :
    Act Entry (Session σ) (Act.Turn (List Value) (List Value)) := do
  match ← Session.next i fuel with
  | .node v => return .again ((← Act.ofExcept (v.item (.str "name"))) :: names)
  | _ => return .done names.reverse

def identifierNames (r : Nat) (root : Value) (fuel : Nat) : Act Entry (Session σ) (List Value) := do
  let i ← Session.traverse (some r) (Options.findingKinds {} [.str "Identifier"]) root
  match ← Act.iterate (nameTurn i fuel) fuel [] with
  | .done names => return names
  | .again names => return names.reverse

/-- The demonstration on a given tree. -/
def demo (root : Value) (fuel : Nat) : Act Entry (Page (Session σ)) Unit := do
  Page.print "=== Default rules (JSX is opaque) ==="
  let shared ← Page.onUnder Session.sharedRegistry
  outline shared root fuel
  let r ← Page.onUnder (Session.standardRegistry (.str "type"))
  Page.onUnder (Session.onRegistry r
    (Registry.fill (extraRules.map fun e => (.str e.1, .rule (FieldSpec.rule e.2)))))
  Page.print "\n=== With JSX rules ==="
  outline r root fuel
  let names ← Page.onUnder (identifierNames r root fuel)
  let shown ← Act.ofExcept (Value.list ⟨0, none⟩ names).text
  Page.print ("\nIdentifiers: " ++ shown)
  let (c, unknown) ← Page.onUnder (Session.census (some r) {} root fuel)
  Page.print ("Total nodes: " ++ toString c.total ++ "  leaves: " ++ toString c.leaves)
  Page.print ("Kinds without rules: " ++ String.intercalate ", " unknown)

/-- The demonstration on the tree that a text holds, or on the built-in one. -/
def demoOfText (text : Option String) (fuel : Nat) : Act Entry (Page (Session σ)) Unit := do
  match text with
  | none => demo program fuel
  | some t =>
    let (root, _) ← Act.ofExcept (Reader.read 0 (Text.unifyLineEndings t.toList))
    demo root fuel

end RuleWalk.Sample
