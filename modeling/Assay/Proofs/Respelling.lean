-- The parser goes by the kinds of tokens. How a line break, a string or an
-- error token is spelled comes back in the tree and in the tokens of findings,
-- and decides nothing.
import Assay.Proofs.Rewriting

namespace Assay

/-! ## Respelling -/

variable (spell : String → String)

/-- The token with its text spelled another way. -/
def Token.respell (token : Token) : Token :=
  { token with value := spell token.value }

def Diagnostic.respell (d : Diagnostic) : Diagnostic :=
  { d with token := d.token.respell spell }

mutual

/-- The tree with every text in it spelled another way. -/
def Node.respell : Node → Node
  | ⟨kind, value, children, token⟩ =>
    ⟨kind, value.map spell, Node.respellAll children, token.map (Token.respell spell)⟩

def Node.respellAll : List Node → List Node
  | [] => []
  | node :: rest => node.respell :: Node.respellAll rest

end

def Derivation.respell (d : Derivation) : Derivation :=
  ⟨d.statements.map (Node.respell spell), d.reports.map (Diagnostic.respell spell), d.recoveries⟩

/-- The text of a token stays as it is, or it is one that the parser has no use for. -/
def Token.Steady (token : Token) : Prop :=
  token.kind ∈ [.newline, .string, .error] ∨ spell token.value = token.value

section

variable {spell}

theorem Node.respellAll_eq_map (nodes : List Node) :
    Node.respellAll spell nodes = nodes.map (Node.respell spell) := by
  induction nodes with
  | nil => rfl
  | cons node rest ih => rw [Node.respellAll, ih, List.map_cons]

theorem Node.respell_leafOf (token : Token) (h : token.kind.isLiteral) :
    (Node.leafOf token h).respell spell = Node.leafOf (token.respell spell) h := by
  unfold Node.leafOf
  rw [Node.respell, Node.respellAll]
  rfl

theorem Node.respell_assignment (name : Token) (value : Node) :
    (Node.assignment name value).respell spell =
      Node.assignment (name.respell spell) (value.respell spell) := by
  unfold Node.assignment
  rw [Node.respell, Node.respellAll, Node.respellAll]
  rfl

end

/-- Another spelling of texts as a change of tokens. -/
def Rewriting.respelling : Rewriting where
  token := Token.respell spell
  node := Node.respell spell
  finding := Diagnostic.respell spell
  token_kind _ := rfl
  node_leafOf token h _ := Node.respell_leafOf token h
  node_assignment name value _ := Node.respell_assignment name value
  finding_about _ _ := rfl

variable {spell}

theorem Token.Steady.keeps {token : Token} (h : token.Steady spell) :
    (Rewriting.respelling spell).Keeps token :=
  ⟨rfl, fun hkind => h.resolve_left hkind⟩

/-- What the parser makes of a stream does not hang on how strings, line breaks and error tokens
are spelled. -/
theorem derive_respell {tokens : List Token} {mark : Token} (hmark : mark.kind = .endMark)
    (hnone : ∀ token ∈ tokens, token.kind ≠ .endMark)
    (hsteady : ∀ token ∈ tokens ++ [mark], token.Steady spell) :
    derive ((tokens ++ [mark]).map (Token.respell spell)) =
      (derive (tokens ++ [mark])).respell spell := by
  obtain ⟨hstatements, hreports, hrecoveries⟩ :=
    (Rewriting.respelling spell).carries_derive hmark hnone
      (fun token hmem => (hsteady token hmem).keeps)
  rw [Derivation.respell, ← hrecoveries (fun _ => rfl)]
  show _ = Derivation.mk (List.map (Rewriting.respelling spell).node _)
    (List.map (Rewriting.respelling spell).finding _) _
  rw [← hstatements, ← hreports]
  rfl

theorem Derivation.tree?_respell (d : Derivation) :
    (d.respell spell).tree? = d.tree?.map (Node.respell spell) := by
  unfold tree? respell
  cases h : d.statements with
  | nil => rfl
  | cons statement rest =>
    simp [Node.program, Node.respell, Node.respellAll_eq_map]

end Assay
