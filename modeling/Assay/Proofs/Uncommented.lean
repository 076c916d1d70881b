-- Comments left out. The text without its comments has the other tokens, the same
-- tree and the same findings: only the line break or the end mark that stood right
-- after a comment has moved, and it takes the place of the comment.
import Assay.Proofs.Comments
import Assay.Proofs.Rewriting
import Assay.Proofs.Tracing

namespace Assay

/-! ## Line ends close up -/

/-- The place just past a token. -/
def Token.past (token : Token) : Position :=
  token.position.past token.value.toList

/-- The token as it stands without these comments: a line break or an end mark right after one of
them stands in its place. -/
def Token.closeUp (comments : List Token) (token : Token) : Token :=
  if token.kind ∈ [.newline, .endMark] then
    match comments.find? (fun comment => comment.past = token.position) with
    | some comment => { token with position := comment.position }
    | none => token
  else token

theorem Token.closeUp_of_kind {comments : List Token} {token : Token}
    (h : token.kind ∉ [.newline, .endMark]) : token.closeUp comments = token :=
  if_neg h

/-- A token stays where it is, or there is a comment that ends there. -/
theorem Token.closeUp_cases (comments : List Token) (token : Token) :
    token.closeUp comments = token ∨
      ∃ comment ∈ comments, comment.past = token.position ∧
        token.closeUp comments = { token with position := comment.position } := by
  unfold closeUp
  split
  · split
    · rename_i comment hfind
      exact Or.inr ⟨comment, List.mem_of_find?_eq_some hfind, by simpa using List.find?_some hfind,
        rfl⟩
    · exact Or.inl rfl
  · exact Or.inl rfl

theorem Token.closeUp_eq_at (comments : List Token) (token : Token) :
    ∃ position, token.closeUp comments = { token with position := position } := by
  rcases token.closeUp_cases comments with h | ⟨comment, -, -, h⟩
  · exact ⟨token.position, h⟩
  · exact ⟨comment.position, h⟩

@[simp] theorem Token.closeUp_kind (comments : List Token) (token : Token) :
    (token.closeUp comments).kind = token.kind := by
  obtain ⟨position, h⟩ := token.closeUp_eq_at comments
  rw [h]

/-- Tokens at places of their own, an end mark last. Where a comment ends, a line break or an end
mark stands. -/
structure CommentsAtEnds (tokens : List Token) : Prop where
  nodup : (tokens.map Token.position).Nodup
  last_kind : ∀ last ∈ tokens.getLast?, last.kind = .endMark
  next {before after : List Token} {comment next : Token} :
    tokens = before ++ comment :: next :: after → comment.kind = .comment →
      next.kind ∈ [.newline, .endMark] ∧ next.position = comment.past

theorem eq_of_nodup_map {α β : Type} {f : α → β} {l before other after more : List α} {x y : α}
    (hnodup : (l.map f).Nodup) (h : l = before ++ x :: after) (h' : l = other ++ y :: more)
    (hsame : f x = f y) : before = other := by
  have hx : (l.map f)[before.length]? = some (f x) := by simp [h]
  have hy : (l.map f)[other.length]? = some (f y) := by simp [h']
  have hlt : before.length < (l.map f).length := by simp [h]
  have hlength : before.length = other.length :=
    (List.getElem?_inj hlt hnodup).mp (by rw [hx, hy, hsame])
  exact (List.append_inj (h.symm.trans h') hlength).1

namespace CommentsAtEnds

variable {tokens before after : List Token} {comment token : Token} (h : CommentsAtEnds tokens)

include h

theorem exists_next (hmem : comment ∈ tokens) (hkind : comment.kind = .comment) :
    ∃ before next after, tokens = before ++ comment :: next :: after := by
  obtain ⟨before, after, hrow⟩ := List.append_of_mem hmem
  cases after with
  | nil =>
    rw [h.last_kind comment (by simp [hrow])] at hkind
    cases hkind
  | cons next after => exact ⟨before, next, after, hrow⟩

/-- A comment that ends where a token stands is the one just before it. -/
theorem eq_concat (htoken : tokens = before ++ token :: after) (hmem : comment ∈ tokens)
    (hkind : comment.kind = .comment) (hpast : comment.past = token.position) :
    ∃ earlier, before = earlier ++ [comment] := by
  obtain ⟨earlier, next, later, hrow⟩ := h.exists_next hmem hkind
  have hrow' : tokens = (earlier ++ [comment]) ++ next :: later := by simp [hrow]
  refine ⟨earlier, eq_of_nodup_map h.nodup htoken hrow' ?_⟩
  rw [(h.next hrow hkind).2, hpast]

/-- A token that does not stand right after a comment stays where it is. -/
theorem closeUp_eq (htoken : tokens = before ++ token :: after)
    (hlast : ∀ last ∈ before.getLast?, last.kind ≠ .comment) :
    token.closeUp (tokens.filter (fun token => token.kind = .comment)) = token := by
  rcases token.closeUp_cases (tokens.filter (fun token => token.kind = .comment)) with
    hsame | ⟨comment, hmem, hpast, -⟩
  · exact hsame
  · obtain ⟨hmem, hkind⟩ := List.mem_filter.mp hmem
    have hcomment : comment.kind = .comment := of_decide_eq_true hkind
    obtain ⟨earlier, rfl⟩ := h.eq_concat htoken hmem hcomment hpast
    exact absurd hcomment (hlast comment (by simp))

/-- What stands right after a comment takes its place. -/
theorem closeUp_of_comment (htoken : tokens = before ++ comment :: token :: after)
    (hcomment : comment.kind = .comment) :
    token.closeUp (tokens.filter (fun token => token.kind = .comment)) =
      { token with position := comment.position } := by
  obtain ⟨hkind, hposition⟩ := h.next htoken hcomment
  have hrow : tokens = (before ++ [comment]) ++ token :: after := by simp [htoken]
  unfold Token.closeUp
  rw [if_pos hkind]
  split
  · rename_i other hfind
    obtain ⟨hmem, hother⟩ := List.mem_filter.mp (List.mem_of_find?_eq_some hfind)
    have hpast : other.past = token.position := by simpa using List.find?_some hfind
    obtain ⟨earlier, hbefore⟩ := h.eq_concat hrow hmem (of_decide_eq_true hother) hpast
    have hsame : comment = other := by simpa using (List.append_inj' hbefore rfl).2
    rw [hsame]
  · rename_i hnone
    have hmem : comment ∈ tokens.filter (fun token => token.kind = .comment) := by
      simp [htoken, hcomment]
    have hpast := List.find?_eq_none.mp hnone comment hmem
    rw [hposition] at hpast
    exact absurd (decide_eq_true rfl) hpast

/-- No blanks stand between a comment and the end of its line. -/
theorem filter_blanks : CommentsAtEnds (tokens.filter (fun token => token.kind ≠ .whitespace)) := by
  have hnodup : ((tokens.filter (fun token => token.kind ≠ .whitespace)).map
      Token.position).Nodup := h.nodup.sublist (List.filter_sublist.map _)
  refine ⟨hnodup, ?_, ?_⟩
  · intro last hlast
    rcases tokens.eq_nil_or_concat' with rfl | ⟨earlier, mark, rfl⟩
    · cases hlast
    · have hmark : mark.kind = .endMark := h.last_kind mark (by simp)
      rw [List.filter_append, List.filter_cons_of_pos (by simp [hmark])] at hlast
      simp only [List.filter_nil, List.getLast?_append, List.getLast?_singleton, Option.some_or,
        Option.mem_def, Option.some.injEq] at hlast
      rw [← hlast, hmark]
  · intro before after comment next htoken hcomment
    have hmem : comment ∈ tokens.filter (fun token => token.kind ≠ .whitespace) := by
      rw [htoken]
      exact List.mem_append_right _ List.mem_cons_self
    obtain ⟨earlier, follower, later, hrow⟩ :=
      h.exists_next (List.mem_filter.mp hmem).1 hcomment
    obtain ⟨hkind, hposition⟩ := h.next hrow hcomment
    have hkept : tokens.filter (fun token => token.kind ≠ .whitespace) =
        earlier.filter (fun token => token.kind ≠ .whitespace) ++ comment :: follower ::
          later.filter (fun token => token.kind ≠ .whitespace) := by
      have hsolid : follower.kind ≠ .whitespace := by
        intro hblank
        rw [hblank] at hkind
        exact absurd hkind (by decide)
      rw [hrow, List.filter_append, List.filter_cons_of_pos (by simp [hcomment]),
        List.filter_cons_of_pos (by simp [hsolid])]
    have hbefore := eq_of_nodup_map hnodup htoken hkept rfl
    rw [htoken, hbefore] at hkept
    obtain ⟨-, hafter⟩ := List.cons.inj (List.append_cancel_left hkept)
    rw [(List.cons.inj hafter).1]
    exact ⟨hkind, hposition⟩

end CommentsAtEnds

/-! ## The tokens of a text without its comments -/

theorem Position.line_past {text : List Char} (h : ∀ c ∈ text, ¬ isLineEnd c) (p : Position) :
    (p.past text).line = p.line := by
  induction text generalizing p with
  | nil => rfl
  | cons c text ih =>
    have hc : c ≠ '\n' := by
      rintro rfl
      exact h '\n' List.mem_cons_self rfl
    rw [past_cons, ih fun d hd => h d (List.mem_cons_of_mem _ hd), step, if_neg hc]

/-- Where a line ends does not show in the place of the next one. -/
theorem Position.past_lineBreak {mark : List Char} (hmark : mark ∈ [['\n'], ['\r', '\n']])
    {p q : Position} (hline : p.line = q.line) : p.past mark = q.past mark := by
  simp only [List.mem_cons, List.not_mem_nil, or_false] at hmark
  rcases hmark with rfl | rfl <;> simp [step, hline]

namespace Lexeme

/-- The end mark, as if the text held it. -/
def endMark : Lexeme := ⟨.endMark, ['E', 'O', 'F'], none⟩

theorem place_endMark (source : String) :
    place .start (split source.toList ++ [endMark]) =
      scan source ++ [Token.endMark (endOf source)] := by
  rw [place_append, flatMap_text_split]
  rfl

namespace CommentsEndLines

variable {lexemes : List Lexeme} (h : CommentsEndLines lexemes)

include h

/-- After a comment comes a line break or the end mark. -/
theorem kind_of_follower {p : Position} {before after : List Token} {comment token : Token}
    (hrow : place p (lexemes ++ [endMark]) = before ++ comment :: token :: after)
    (hcomment : comment.kind = .comment) : token.kind ∈ [.newline, .endMark] := by
  induction h generalizing p before with
  | nil =>
    have hlength := congrArg List.length hrow
    simp [place] at hlength
    omega
  | @plain lexeme lexemes hkind _ ih =>
    cases before with
    | nil =>
      rw [← (List.cons.inj hrow).1] at hcomment
      exact absurd hcomment hkind
    | cons first before => exact ih (List.cons.inj hrow).2
  | last _ =>
    cases before with
    | nil =>
      rw [← (List.cons.inj (List.cons.inj hrow).2).1]
      exact List.mem_cons_of_mem _ List.mem_cons_self
    | cons first before =>
      have hlength := congrArg List.length hrow
      simp [place] at hlength
      omega
  | @comment body mark lexemes _ _ _ ih =>
    cases before with
    | nil =>
      rw [← (List.cons.inj (List.cons.inj hrow).2).1]
      exact List.mem_cons_self
    | cons first before =>
      obtain ⟨-, htail⟩ := List.cons.inj hrow
      cases before with
      | nil =>
        rw [← (List.cons.inj htail).1] at hcomment
        cases hcomment
      | cons second before => exact ih (List.cons.inj htail).2

/-- Without the comments the tokens stand where they stood, but for the line ends that close up. -/
theorem place_uncommented {tokens before : List Token} (htokens : CommentsAtEnds tokens)
    (p : Position) (hrow : tokens = before ++ place p (lexemes ++ [endMark]))
    (hlast : ∀ last ∈ before.getLast?, last.kind ≠ .comment) :
    place p (uncommented lexemes ++ [endMark]) =
      ((place p (lexemes ++ [endMark])).filter (fun token => token.kind ≠ .comment)).map
        (Token.closeUp (tokens.filter (fun token => token.kind = .comment))) := by
  unfold uncommented
  induction h generalizing p before with
  | nil =>
    show [endMark.toToken p] = [(endMark.toToken p).closeUp _]
    rw [htokens.closeUp_eq hrow hlast]
  | @plain lexeme lexemes hkind _ ih =>
    have hrow' : tokens = (before ++ [lexeme.toToken p]) ++
        place (p.past lexeme.text) (lexemes ++ [endMark]) := by
      rw [hrow, List.append_assoc]
      rfl
    rw [List.filter_cons_of_pos (by simpa using hkind), List.cons_append, place, List.cons_append,
      place, List.filter_cons_of_pos (by rw [toToken]; simpa using hkind), List.map_cons,
      htokens.closeUp_eq hrow hlast, ih _ hrow' (by simpa [toToken] using hkind)]
  | @last body hbody =>
    have hmoved := htokens.closeUp_of_comment hrow rfl
    exact congrArg (fun token => [token]) hmoved.symm
  | @comment body mark lexemes hbody hmark _ ih =>
    have hsign : ∀ c ∈ '#' :: body, ¬ isLineEnd c := by simpa [isLineEnd] using hbody
    have hplace : (p.past ('#' :: body)).past mark = p.past mark :=
      Position.past_lineBreak hmark (Position.line_past hsign p)
    have hrow' : tokens = (before ++ [(⟨.comment, '#' :: body, none⟩ : Lexeme).toToken p,
          (⟨.newline, mark, none⟩ : Lexeme).toToken (p.past ('#' :: body))]) ++
        place ((p.past ('#' :: body)).past mark) (lexemes ++ [endMark]) := by
      rw [hrow, List.append_assoc]
      rfl
    have hrest := ih _ hrow' (by simp [toToken])
    rw [hplace] at hrest
    have hmoved := htokens.closeUp_of_comment hrow rfl
    refine congrArg₂ List.cons hmoved.symm (hrest.trans ?_)
    rw [← hplace]
    rfl

end CommentsEndLines

end Lexeme

/-! ## The law -/

/-- The text without its comments. -/
def withoutComments (source : String) : String :=
  String.join (((scan source).filter (fun token => token.kind ≠ .comment)).map Token.value)

/-- The comments of the text. -/
def commentsOf (source : String) : List Token :=
  (tokenize source).tokens.filter (fun token => token.kind = .comment)

theorem Lexeme.flatMap_value_uncommented (position : Position) (lexemes : List Lexeme) :
    ((place position lexemes).filter (fun token => token.kind ≠ .comment)).flatMap
        (fun token => token.value.toList) =
      (uncommented lexemes).flatMap Lexeme.text := by
  unfold uncommented
  induction lexemes generalizing position with
  | nil => rfl
  | cons lexeme rest ih =>
    rw [place, List.filter_cons, List.filter_cons]
    by_cases hcomment : lexeme.kind = .comment
    · simpa [toToken, hcomment] using ih (position.past lexeme.text)
    · simpa [toToken, hcomment] using ih (position.past lexeme.text)

theorem toList_withoutComments (source : String) :
    (withoutComments source).toList =
      (Lexeme.uncommented (Lexeme.split source.toList)).flatMap Lexeme.text := by
  rw [withoutComments, String.toList_join, List.flatMap_map]
  exact Lexeme.flatMap_value_uncommented .start _

/-! ## Reading the tokens -/

/-- Closing up as a change of tokens: no name and no literal moves. -/
def Rewriting.closing (comments : List Token) : Rewriting where
  token := Token.closeUp comments
  node := id
  finding d := .about (d.token.closeUp comments) d.problem
  token_kind := Token.closeUp_kind comments
  node_leafOf token h _ := by
    have hnone : ∀ kind ∈ [TokenKind.newline, .endMark], ¬ kind.isLiteral := by decide
    simp only [Token.closeUp_of_kind fun hmem => hnone token.kind hmem h, id_eq]
  node_assignment name value h := by
    rw [Token.closeUp_of_kind (by simp [h]), id_eq, id_eq]
  finding_about _ _ := rfl

theorem Rewriting.closing_keeps (comments : List Token) (token : Token) :
    (closing comments).Keeps token := by
  obtain ⟨position, hclose⟩ := token.closeUp_eq_at comments
  constructor
  · show (token.closeUp comments).error = token.error
    rw [hclose]
  · intro _
    show (token.closeUp comments).value = token.value
    rw [hclose]

/-- The parser reads past the comments. -/
theorem derive_filter_comments {tokens : List Token} {mark : Token} (hmark : mark.kind = .endMark)
    (hnone : ∀ token ∈ tokens, token.kind ≠ .endMark) :
    derive (tokens.filter (fun token => token.kind ≠ .comment) ++ [mark]) =
      derive (tokens ++ [mark]) := by
  have hnone' : ∀ token ∈ tokens.filter (fun token => token.kind ≠ .comment),
      token.kind ≠ .endMark := fun token hmem => hnone token (List.mem_filter.mp hmem).1
  rw [derive_eq, derive_eq, programEnd_append_mark hmark hnone,
    programEnd_append_mark hmark hnone', programTokens_append_mark hmark hnone,
    programTokens_append_mark hmark hnone', List.filter_filter]
  refine congrArg (readProgram mark) (List.filter_congr fun token _ => ?_)
  cases token.kind <;> decide

section Source

variable {source : String} (h : ReturnsPaired source.toList)

include h

theorem commentsAtEnds_scan : CommentsAtEnds (scan source ++ [Token.endMark (endOf source)]) := by
  refine ⟨?_, ?_, ?_⟩
  · rw [endOf_eq]
    exact nodup_position_scan source
  · intro last hlast
    simp only [List.getLast?_append, List.getLast?_singleton, Option.some_or, Option.mem_def,
      Option.some.injEq] at hlast
    rw [← hlast]
    rfl
  · intro before after comment next hrow hcomment
    rw [← Lexeme.place_endMark] at hrow
    refine ⟨(Lexeme.commentsEndLines_split h).kind_of_follower hrow hcomment, ?_⟩
    have hnext : Lexeme.place .start (Lexeme.split source.toList ++ [Lexeme.endMark]) =
        (before ++ [comment]) ++ next :: after := by
      rw [hrow, List.append_assoc]
      rfl
    rw [Lexeme.position_of_place hnext, List.flatMap_append, Position.past_append,
      ← Lexeme.position_of_place hrow, List.flatMap_singleton]
    rfl

/-- Without the comments the tokens are the other ones, closed up. -/
theorem scan_withoutComments :
    scan (withoutComments source) ++ [Token.endMark (endOf (withoutComments source))] =
      ((scan source ++ [Token.endMark (endOf source)]).filter
        (fun token => token.kind ≠ .comment)).map (Token.closeUp (commentsOf source)) := by
  have hcomments : commentsOf source = (scan source ++ [Token.endMark (endOf source)]).filter
      (fun token => token.kind = .comment) := by
    rw [commentsOf, tokens_eq_filter, List.filter_filter]
    refine List.filter_congr fun token _ => ?_
    by_cases hcomment : token.kind = .comment <;> simp [hcomment]
  have hrow : scan source ++ [Token.endMark (endOf source)] =
      [] ++ Lexeme.place .start (Lexeme.split source.toList ++ [Lexeme.endMark]) :=
    (Lexeme.place_endMark source).symm
  have hplace := (Lexeme.commentsEndLines_split h).place_uncommented (commentsAtEnds_scan h) .start
    hrow (by simp)
  rw [hcomments, ← Lexeme.place_endMark, toList_withoutComments, Lexeme.split_uncommented h, hplace,
    Lexeme.place_endMark]

theorem tokens_withoutComments :
    (tokenize (withoutComments source)).tokens =
      ((tokenize source).tokens.filter (fun token => token.kind ≠ .comment)).map
        (Token.closeUp (commentsOf source)) := by
  rw [tokens_eq_filter, scan_withoutComments h, List.filter_map, List.filter_filter,
    tokens_eq_filter source, List.filter_filter]
  refine congrArg (List.map _) (List.filter_congr fun token _ => ?_)
  simp [Bool.and_comm]

theorem errors_withoutComments :
    (tokenize (withoutComments source)).errors = (tokenize source).errors := by
  rw [errors_eq_filter, tokens_withoutComments h, List.filter_map, List.filter_filter,
    errors_eq_filter]
  refine (List.map_congr_left ?_).trans ((List.map_id _).trans (List.filter_congr ?_))
  · intro token hmem
    have hkind := (Bool.and_eq_true_iff.mp (List.mem_filter.mp hmem).2).1
    have herror : token.kind = .error := by simpa using hkind
    exact Token.closeUp_of_kind (by simp [herror])
  · intro token _
    by_cases herror : token.kind = .error <;> simp [herror]

theorem derive_withoutComments :
    (Rewriting.closing (commentsOf source)).Carries (derive (tokenize source).tokens)
      (derive (tokenize (withoutComments source)).tokens) := by
  have hmark : (Token.endMark (endOf source)).kind = .endMark := rfl
  have hnone := kind_ne_endMark source
  have hkept : ∀ token ∈ ((scan source).filter (fun token => token.kind ≠ .whitespace)).filter
      (fun token => token.kind ≠ .comment), token.kind ≠ .endMark :=
    fun token hmem => hnone token (List.mem_filter.mp hmem).1
  have hcarries := (Rewriting.closing (commentsOf source)).carries_derive hmark hkept
    (fun token _ => Rewriting.closing_keeps _ token)
  rw [derive_filter_comments hmark hnone] at hcarries
  rw [tokens_withoutComments h, tokenize, List.filter_append]
  exact hcarries

end Source

/-- A comment shows in places alone, and only where its line ends. Where carriage returns stand
only before line feeds, the text without its comments has the same analysis: the same tokens but for
the comments, the same tree and the same findings. The line break or the end mark that stands right
after a comment takes its place, in the tokens and in the findings about it, and no other token
moves. -/
theorem comments_show_in_line_ends_alone (source : String)
    (h : ∀ i, source.toList[i]? = some '\r' → source.toList[i + 1]? = some '\n') :
    (analyze (withoutComments source)).tokens =
        ((analyze source).tokens.filter (fun token => token.kind ≠ .comment)).map
          (Token.closeUp (commentsOf source)) ∧
      (∀ before comment token after,
        (analyze source).tokens = before ++ comment :: token :: after →
          comment.kind = .comment →
            token.kind ∈ [.newline, .endMark] ∧
              token.closeUp (commentsOf source) = { token with position := comment.position }) ∧
      (∀ before token after, (analyze source).tokens = before ++ token :: after →
        (∀ last ∈ before.getLast?, last.kind ≠ .comment) →
          token.closeUp (commentsOf source) = token) ∧
      (analyze (withoutComments source)).tree = (analyze source).tree ∧
      (analyze (withoutComments source)).lexicalErrors = (analyze source).lexicalErrors ∧
      (analyze (withoutComments source)).syntaxErrors =
        (analyze source).syntaxErrors.map
          (fun d => .about (d.token.closeUp (commentsOf source)) d.problem) := by
  have hends : CommentsAtEnds (tokenize source).tokens := by
    rw [tokens_eq_filter]
    exact (commentsAtEnds_scan h).filter_blanks
  have hcarries := derive_withoutComments h
  refine ⟨tokens_withoutComments h, ?_, ?_, ?_, ?_, hcarries.reports_eq⟩
  · intro before comment token after hrow hcomment
    exact ⟨(hends.next hrow hcomment).1, hends.closeUp_of_comment hrow hcomment⟩
  · intro before token after hrow hlast
    exact hends.closeUp_eq hrow hlast
  · have hstatements : (derive (tokenize (withoutComments source)).tokens).statements =
        (derive (tokenize source).tokens).statements :=
      hcarries.statements_eq.trans (List.map_id _)
    show (derive (tokenize (withoutComments source)).tokens).tree? =
      (derive (tokenize source).tokens).tree?
    unfold Derivation.tree?
    rw [hstatements]
  · show (tokenize (withoutComments source)).errors.map _ = (tokenize source).errors.map _
    rw [errors_withoutComments h]

/-- An assignment without its value, and a number sign in a string. -/
theorem a_missing_value_is_found_without_the_comment :
    withoutComments "x=#a\n'#'#b" = "x=\n'#'" ∧
      (analyze "x=\n'#'").tree = (analyze "x=#a\n'#'#b").tree ∧
      (analyze "x=#a\n'#'#b").syntaxErrors =
        [SyntaxFault.missingValue.about ⟨.newline, "\n", ⟨1, 5⟩, none⟩] ∧
      (analyze "x=\n'#'").syntaxErrors =
        [SyntaxFault.missingValue.about ⟨.newline, "\n", ⟨1, 3⟩, none⟩] := by
  have htext : withoutComments "x=#a\n'#'#b" = "x=\n'#'" := by decide +kernel
  have hfindings : (analyze "x=#a\n'#'#b").syntaxErrors =
      [SyntaxFault.missingValue.about ⟨.newline, "\n", ⟨1, 5⟩, none⟩] := by decide +kernel
  have hreturns : ∀ i, "x=#a\n'#'#b".toList[i]? = some '\r' →
      "x=#a\n'#'#b".toList[i + 1]? = some '\n' := by
    intro i hi
    exact absurd (List.mem_of_getElem? hi) (by decide)
  obtain ⟨-, -, -, htree, -, hreports⟩ := comments_show_in_line_ends_alone "x=#a\n'#'#b" hreturns
  rw [htext] at htree hreports
  refine ⟨htext, htree, hfindings, ?_⟩
  rw [hreports, hfindings]
  decide +kernel

/-- Not the end mark alone moves: the line break after a comment does so as well. -/
theorem a_line_break_takes_the_place_of_its_comment :
    ¬ ∀ source : String,
      (∀ i, source.toList[i]? = some '\r' → source.toList[i + 1]? = some '\n') →
        (analyze (withoutComments source)).tokens.filter (fun token => token.kind ≠ .endMark) =
          (analyze source).tokens.filter (fun token => token.kind ∉ [.comment, .endMark]) := by
  intro h
  have hreturns : ∀ i, "#\n".toList[i]? = some '\r' → "#\n".toList[i + 1]? = some '\n' := by
    intro i hi
    exact absurd (List.mem_of_getElem? hi) (by decide)
  have hmoved : (analyze (withoutComments "#\n")).tokens.filter
      (fun token => token.kind ≠ .endMark) = [⟨.newline, "\n", ⟨1, 1⟩, none⟩] := by
    decide +kernel
  have hstood : (analyze "#\n").tokens.filter
      (fun token => token.kind ∉ [.comment, .endMark]) = [⟨.newline, "\n", ⟨1, 2⟩, none⟩] := by
    decide +kernel
  have hsame := h "#\n" hreturns
  rw [hmoved, hstood] at hsame
  exact absurd hsame (by decide)

end Assay
