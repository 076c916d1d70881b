-- Answers to requests. The analysis by index never breaks off and always ends,
-- and comes to the analysis of the library, so an answer says either that the
-- request is bad or how many errors the text has.
import Assay.Proofs.Indexed.Parse
import Assay.Proofs.Indexed.Scan
import Assay.Service

namespace Assay

/-! ## The analysis by index -/

namespace Indexed

/-- The analysis of a text as it walks over characters and tokens by index. -/
def analyze (source : String) : Option Analysis := do
  let stream ← tokenize source
  let derivation ← parse stream.tokens
  some
    { tokens := stream.tokens
      tree := derivation.tree?
      lexicalErrors := stream.errors.map Diagnostic.ofErrorToken
      syntaxErrors := derivation.reports
      log := stream.record source :: derivation.log }

theorem analyze_eq (source : String) : analyze source = some (Assay.analyze source) := by
  rw [analyze, tokenize_eq, Option.bind_eq_bind, Option.bind_some, parse_eq]
  rfl

/-- The analysis by index, or the given message where it breaks off. -/
def analysisOr (breakdown source : String) : Except String Analysis :=
  match analyze source with
  | some analysis => .ok analysis
  | none => .error breakdown

end Indexed

/-! ## What a body counts -/

/-- Whether a token of a body is an error token. -/
def Json.isErrorToken (token : Json) : Bool :=
  match token.field? "type" with
  | some (.string tag) => tag = TokenKind.error.tag
  | _ => false

/-- The total of a body is the number of error tokens among its tokens and of its syntax errors. -/
def Json.CountsErrors (body : Json) : Prop :=
  ∃ tokens errors : List Json,
    body.field? "tokens" = some (.array tokens) ∧
    body.field? "syntaxErrors" = some (.array errors) ∧
    body.field? "totalErrors" =
      some (.ofNat (tokens.countP Json.isErrorToken + errors.length))

theorem TokenKind.tag_eq_error {kind : TokenKind} :
    kind.tag = TokenKind.error.tag ↔ kind = .error := by
  cases kind <;> simp [tag]

theorem Token.isErrorToken_toJson (token : Token) :
    token.toJson.isErrorToken = decide (token.kind = .error) := by
  have hfield : token.toJson.field? "type" = some (.string token.kind.tag) := rfl
  unfold Json.isErrorToken
  rw [hfield]
  simp only [TokenKind.tag_eq_error]

/-- The error tokens of a stream are those that the lexer lists as errors. -/
theorem countP_tokens_tokenize (source : String) :
    (tokenize source).tokens.countP (fun token => token.kind = .error) =
      (tokenize source).errors.length := by
  have hkept : (fun token : Token => decide (token.kind = .error) && decide (token.kind ≠ .whitespace)) =
      fun token => decide (token.kind = .error) := by
    funext token
    by_cases herror : token.kind = .error
    · simp [herror]
    · simp [herror]
  unfold tokenize
  simp only [List.countP_append, List.countP_filter, hkept]
  rw [List.countP_eq_length_filter]
  rfl

theorem countsErrors_analyze (source : String) : (analyze source).toJson.CountsErrors := by
  refine ⟨(analyze source).tokens.map Token.toJson,
    (analyze source).syntaxErrors.map Diagnostic.toJson, rfl, rfl, ?_⟩
  have htotal : (analyze source).totalErrors =
      ((analyze source).tokens.map Token.toJson).countP Json.isErrorToken +
        ((analyze source).syntaxErrors.map Diagnostic.toJson).length := by
    have hcount : Json.isErrorToken ∘ Token.toJson = fun token => decide (token.kind = .error) :=
      funext Token.isErrorToken_toJson
    have herrors : (analyze source).lexicalErrors.length = (tokenize source).errors.length :=
      List.length_map ..
    rw [Analysis.totalErrors, List.countP_map, hcount, List.length_map, herrors,
      ← countP_tokens_tokenize]
    rfl
  rw [← htotal]
  rfl

/-! ## The law -/

/-- The payload is an object whose source is a text, and not an empty one. -/
def Json.HoldsSource (payload : Json) : Prop :=
  ∃ source : String, source ≠ "" ∧ payload.field? sourceField = some (.string source)

theorem requestedSource_of_holdsSource {payload : Json} (h : payload.HoldsSource) :
    ∃ source, requestedSource payload = .ok source := by
  obtain ⟨source, hne, hfield⟩ := h
  refine ⟨source, ?_⟩
  rw [requestedSource, hfield]
  exact if_neg hne

theorem requestedSource_of_not_holdsSource {payload : Json} (h : ¬ payload.HoldsSource) :
    ∃ refusal, requestedSource payload = .error refusal := by
  unfold requestedSource
  split
  · exact ⟨_, rfl⟩
  · exact ⟨_, rfl⟩
  · rename_i source hfield
    split
    · exact ⟨_, rfl⟩
    · rename_i hne
      exact absurd ⟨source, hne, hfield⟩ h
  · exact ⟨_, rfl⟩

/-- Every request is answered. The analysis by index has a result for every text, so whatever
message stood for a breakdown, it is never sent. The status is 200, with a total that counts the
error tokens and the syntax errors, just if the payload holds a source, and 400 just if not. -/
theorem every_request_is_answered :
    (∀ source, Indexed.analyze source = some (analyze source)) ∧
    ∀ (breakdown : String) (payload : Json),
      let answer := handleRequestBy (Indexed.analysisOr breakdown) payload
      answer = handleRequest payload ∧
        (answer.status = 200 ∧ answer.body.CountsErrors ↔ payload.HoldsSource) ∧
        (answer.status = 400 ↔ ¬ payload.HoldsSource) := by
  refine ⟨Indexed.analyze_eq, ?_⟩
  intro breakdown payload answer
  have hanalysis : Indexed.analysisOr breakdown = fun source => .ok (analyze source) := by
    funext source
    rw [Indexed.analysisOr, Indexed.analyze_eq]
  have hsame : answer = handleRequest payload := by
    simp only [answer, hanalysis, handleRequest]
  refine ⟨hsame, ?_⟩
  by_cases hholds : payload.HoldsSource
  · obtain ⟨source, hsource⟩ := requestedSource_of_holdsSource hholds
    have hanswer : answer.status = 200 ∧ answer.body = (analyze source).toJson := by
      simp only [answer, handleRequestBy, hsource, hanalysis, and_self]
    rw [hanswer.1, hanswer.2]
    simp [hholds, countsErrors_analyze source]
  · obtain ⟨refusal, hrefusal⟩ := requestedSource_of_not_holdsSource hholds
    have hanswer : answer.status = 400 := by
      simp only [answer, handleRequestBy, hrefusal]
    rw [hanswer]
    simp [hholds]

end Assay
