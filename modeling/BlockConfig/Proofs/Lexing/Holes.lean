import BlockConfig.Eval.Interpolation
import BlockConfig.Proofs.Lexing.Spans

/-!
Three ways to find the holes of a string.

The lexer finds them in the source of a string, the printer in its content, when it decides what to
escape, and the interpolator in its content, when it cuts it into pieces. Each counts braces by
itself. The last two always agree: a content has no hole that nothing closes exactly if it is read
back when it is written in quotation marks, whichever they are. The first agrees with them unless
the source hides a hole: an escaped dollar sign keeps its backslash and its dollar sign, and a brace
right behind it, a plain character for the lexer, opens a hole in the content (`hidesHole`).

`closesHoles` is the common measure, and each of the three is compared with it.
-/

set_option autoImplicit false

namespace BlockConfig

open Text

namespace Lexeme

/-! ## 1. The interpolator -/

/-- A character more in a hole does not matter for what is behind it. -/
theorem exists_closed_map (c : Char) (o : Option (List Char × List Char)) :
    (∃ inner rest, (o.map fun (inner, rest) => (c :: inner, rest)) = some (inner, rest) ∧
        closesHoles 0 rest = true) ↔
      ∃ inner rest, o = some (inner, rest) ∧ closesHoles 0 rest = true := by
  rcases o with _ | ⟨i, r⟩ <;> simp

/-- The holes of a text that begins inside of one are closed if that one is and those behind it
are. -/
theorem closesHoles_succ (depth : Nat) (cs : List Char) :
    closesHoles (depth + 1) cs = true ↔
      ∃ inner rest, closeBraces depth cs = some (inner, rest) ∧ closesHoles 0 rest = true := by
  fun_induction closeBraces depth cs with
  | case1 => simp [closesHoles]
  | case2 depth cs ih => rw [closesHoles, if_pos rfl, ih, exists_closed_map]
  | case3 cs => simp [closesHoles]
  | case4 depth cs ih => rw [closesHoles, if_neg (by decide), if_pos rfl, ih, exists_closed_map]
  | case5 depth c cs h1 h2 h3 ih =>
    have hc : c ≠ '}' := by
      cases depth with
      | zero => exact h2 rfl
      | succ depth => exact h3 depth rfl
    rw [closesHoles, if_neg h1, if_neg hc, ih, exists_closed_map]

theorem closesHoles_zero (cs : List Char) :
    closesHoles 0 cs = true ↔
      ∀ rest, (Piece.beforeHole cs).2 = some rest → closesHoles 1 rest = true := by
  fun_induction Piece.beforeHole cs with
  | case1 => simp [closesHoles]
  | case2 cs => simp [closesHoles]
  | case3 c cs hno front rest he ih =>
    rw [closesHoles.eq_4 _ _ hno, ih, he]

end Lexeme

/-- The interpolator finds a closing brace for every hole of a text whose holes are closed, and for
no other. -/
theorem Piece.unclosed_not_mem_split_iff (cs : List Char) :
    unclosed ∉ split cs ↔ Lexeme.closesHoles 0 cs = true := by
  rw [Lexeme.closesHoles_zero]
  fun_induction split cs with
  | case1 cs front h => simp [h]
  | case2 cs front rest h hn =>
    simp [h, Lexeme.closesHoles_succ, hn]
  | case3 cs front rest h inner rest' hc ih =>
    simp only [List.mem_cons, reduceCtorEq, false_or, h, Option.some.injEq, forall_eq',
      Lexeme.closesHoles_succ, hc, Prod.mk.injEq]
    rw [ih, ← Lexeme.closesHoles_zero]
    simp

namespace Lexeme

/-! ## 2. The printer and the lexer -/

/-- A content that is escaped is read back if its holes are closed. If they are not, no mark ends
the string. -/
theorem stringBody_escapeFrom_eq {q : Char} (hq : isQuote q = true) (depth : Nat)
    (cs : List Char) :
    stringBody q depth (escapeFrom q depth cs ++ [q]) =
      if closesHoles depth cs then some (cs, []) else none := by
  split
  next h => exact stringBody_escapeFrom hq h []
  next h =>
    fun_induction escapeFrom q depth cs with
    | case1 depth =>
      -- The closing mark is taken for a part of the hole.
      cases depth with
      | zero => exact absurd rfl h
      | succ depth =>
        rw [List.nil_append, stringBody]
        generalize (if q = '{' then depth + 2 else if q = '}' then depth else depth + 1) = d
        simp [stringBody]
    | case2 depth c cs ih =>
      rw [closesHoles] at h
      rw [List.cons_append, stringBody, ih h]
      rfl
    | case3 cs ih =>
      rw [closesHoles] at h
      have hi := ih h
      simp [stringBody, dollar_ne_of_isQuote hq, hi]
    | case4 c cs hno ih =>
      rw [closesHoles.eq_4 _ _ hno] at h
      rw [List.append_assoc, stringBody_escapeChar hq, ih h]
      · rfl
      · rintro rfl
        refine escapeFrom_head hq ?_ []
        rintro d hd rfl
        cases cs with
        | nil => simp at hd
        | cons x cs =>
          obtain rfl : x = '{' := by simpa using hd
          exact hno cs rfl rfl

/-! ## 3. The lexer in the source -/

/-- Whether an escaped dollar sign stands directly in front of an opening brace, outside of all
holes, in what is between the marks of a string. `depth` braces of a hole are open. -/
def hidesHole : Nat → List Char → Bool
  | _, [] => false
  | depth + 1, c :: cs =>
    hidesHole (if c = '{' then depth + 2 else if c = '}' then depth else depth + 1) cs
  | 0, '$' :: '{' :: cs => hidesHole 1 cs
  | 0, '\\' :: '$' :: '{' :: _ => true
  | 0, '\\' :: _ :: cs => hidesHole 0 cs
  | 0, _ :: cs => hidesHole 0 cs

/-- An escape makes neither a brace in front of something nor, but for the escaped dollar sign
itself, a dollar sign. -/
theorem unescape_cases (e : Char) :
    (∃ c, unescape e = [c] ∧ c ≠ '{' ∧ c ≠ '$') ∨ unescape e = ['\\', e] := by
  unfold unescape
  split
  · exact .inl ⟨_, rfl, by decide, by decide⟩
  · exact .inl ⟨_, rfl, by decide, by decide⟩
  · exact .inl ⟨_, rfl, by decide, by decide⟩
  · exact .inl ⟨_, rfl, by decide, by decide⟩
  · split
    next hq =>
      refine .inl ⟨_, rfl, ?_⟩
      rcases isQuote_cases hq with rfl | rfl | rfl <;> exact ⟨by decide, by decide⟩
    next => exact .inr rfl

/-- What is read does not begin with an opening brace where the source does not. -/
theorem head_stringBody {q : Char} {cs out rest : List Char}
    (h : stringBody q 0 cs = some (out, rest)) (hc : ∀ c ∈ cs.head?, c ≠ '{') :
    ∀ c ∈ out.head?, c ≠ '{' := by
  -- Each branch puts a character in front of what is read of the rest.
  have hmap : ∀ {o : Option (List Char × List Char)} {x : Char} (xs : List Char), x ≠ '{' →
      (o.map fun p => (x :: (xs ++ p.1), p.2)) = some (out, rest) →
      ∀ c ∈ out.head?, c ≠ '{' := by
    intro o x xs hx ho
    obtain ⟨i, -, rfl⟩ := exists_of_map_fst (fun i => x :: (xs ++ i)) ho
    simpa using hx
  cases cs with
  | nil => simp [stringBody] at h
  | cons c cs =>
    have hc : c ≠ '{' := hc c rfl
    rw [stringBody.eq_def] at h
    dsimp only at h
    split at h
    · obtain ⟨rfl, -⟩ := Prod.mk.inj (Option.some.inj h)
      simp
    split at h
    · simp at h
    split at h
    · split at h
      next => exact hmap ['{'] (by decide) h
      next => exact hmap [] (by decide) h
    split at h
    · split at h
      next => simp at h
      next e cs =>
        rcases unescape_cases e with ⟨x, hu, hx, -⟩ | hu
        · rw [hu] at h
          exact hmap [] hx h
        · rw [hu] at h
          exact hmap [e] (by decide) h
    · exact hmap [] hc h

theorem closesHoles_append {as : List Char} (h : '$' ∉ as) (cs : List Char) :
    closesHoles 0 (as ++ cs) = closesHoles 0 cs := by
  induction as with
  | nil => rfl
  | cons a as ih =>
    have ha : a ≠ '$' := fun ha => h (by simp [ha])
    rw [List.cons_append, closesHoles.eq_4 _ _ fun _ hd => absurd hd ha,
      ih fun hm => h (List.mem_cons_of_mem a hm)]

theorem closesHoles_dollar {cs : List Char} (h : ∀ c ∈ cs.head?, c ≠ '{') :
    closesHoles 0 ('$' :: cs) = closesHoles 0 cs := by
  refine closesHoles.eq_4 _ _ fun ds _ hds => ?_
  rw [hds] at h
  exact h '{' rfl rfl

/-- An escape brings about no hole, unless it lets a dollar sign through that a brace follows. -/
theorem closesHoles_unescape {e : Char} {cs : List Char}
    (h : e = '$' → ∀ c ∈ cs.head?, c ≠ '{') :
    closesHoles 0 (unescape e ++ cs) = closesHoles 0 cs := by
  by_cases he : e = '$'
  · subst he
    show closesHoles 0 ('\\' :: '$' :: cs) = closesHoles 0 cs
    rw [closesHoles.eq_4 _ _ (by simp), closesHoles_dollar (h rfl)]
  · refine closesHoles_append ?_ cs
    rcases unescape_cases e with ⟨x, hu, -, hx⟩ | hu
    · simpa [hu] using Ne.symm hx
    · simpa [hu] using Ne.symm he

theorem hidesHole_escape {e : Char} {body : List Char}
    (h : e = '$' → ∀ c ∈ body.head?, c ≠ '{') :
    hidesHole 0 ('\\' :: e :: body) = hidesHole 0 body := by
  rw [hidesHole.eq_5 _ _ ?_]
  rintro ds rfl rfl
  exact h rfl '{' rfl rfl

/-- The holes of what is read are closed if the source hides none. -/
theorem closesHoles_of_stringBody {q : Char} (hq : isQuote q = true) {depth : Nat}
    {cs out rest : List Char} (h : stringBody q depth cs = some (out, rest)) :
    ∃ body, cs = body ++ q :: rest ∧
      (hidesHole depth body = false → closesHoles depth out = true) := by
  -- A body does not begin with a brace if the text does not.
  have head : ∀ {cs body : List Char}, cs = body ++ q :: rest → (∀ c ∈ cs.head?, c ≠ '{') →
      ∀ c ∈ body.head?, c ≠ '{' := by
    rintro cs body rfl hcs c hc
    cases body with
    | nil => simp at hc
    | cons b body => exact hcs c hc
  fun_induction stringBody q depth cs generalizing out with
  | case1 | case4 | case7 => simp at h
  | case2 depth c cs =>
    rename_i ih
    obtain ⟨i, hi, rfl⟩ := exists_of_map_fst (c :: ·) h
    obtain ⟨body, rfl, hb⟩ := ih hi
    refine ⟨c :: body, rfl, ?_⟩
    rw [hidesHole, closesHoles]
    exact hb
  | case3 cs =>
    simp only [Option.some.injEq, Prod.mk.injEq] at h
    obtain ⟨rfl, rfl⟩ := h
    exact ⟨[], rfl, fun _ => rfl⟩
  | case5 cs =>
    rename_i ih
    obtain ⟨i, hi, rfl⟩ := exists_of_map_fst ('$' :: '{' :: ·) h
    obtain ⟨body, rfl, hb⟩ := ih hi
    refine ⟨'$' :: '{' :: body, rfl, ?_⟩
    rw [hidesHole, closesHoles]
    exact hb
  | case6 cs hno =>
    rename_i ih
    obtain ⟨i, hi, rfl⟩ := exists_of_map_fst ('$' :: ·) h
    have hcs : ∀ c ∈ cs.head?, c ≠ '{' := by
      rintro c hc rfl
      obtain ⟨ds, rfl⟩ := List.head?_eq_some_iff.1 hc
      exact hno ds rfl
    obtain ⟨body, hbody, hb⟩ := ih hi
    refine ⟨'$' :: body, by rw [hbody]; rfl, fun hh => ?_⟩
    rw [closesHoles_dollar (head_stringBody hi hcs)]
    refine hb ?_
    rwa [hidesHole.eq_6 _ _ ?_ (by simp) (by simp)] at hh
    rintro ds - rfl
    exact head hbody hcs '{' rfl rfl
  | case8 e cs =>
    rename_i ih
    obtain ⟨i, hi, rfl⟩ := exists_of_map_fst (unescape e ++ ·) h
    obtain ⟨body, hbody, hb⟩ := ih hi
    refine ⟨'\\' :: e :: body, by rw [hbody]; rfl, fun hh => ?_⟩
    -- Behind an escaped dollar sign there is no brace, or the source would hide a hole.
    have hdollar : e = '$' → ∀ c ∈ cs.head?, c ≠ '{' := by
      rintro rfl c hc rfl
      obtain ⟨ds, hds⟩ := List.head?_eq_some_iff.1 hc
      cases body with
      | nil =>
        obtain rfl : '{' = q := (List.cons.inj (hds.symm.trans hbody)).1
        exact absurd hq (by decide)
      | cons b body =>
        obtain rfl : '{' = b := (List.cons.inj (hds.symm.trans hbody)).1
        rw [hidesHole] at hh
        exact absurd hh (by decide)
    rw [hidesHole_escape fun he => head hbody (hdollar he)] at hh
    rw [closesHoles_unescape fun he => head_stringBody hi (hdollar he)]
    exact hb hh
  | case9 c cs _ _ hdollar hback =>
    rename_i ih
    obtain ⟨i, hi, rfl⟩ := exists_of_map_fst (c :: ·) h
    obtain ⟨body, rfl, hb⟩ := ih hi
    refine ⟨c :: body, rfl, fun hh => ?_⟩
    rw [closesHoles.eq_4 _ _ fun _ hc => absurd hc hdollar]
    refine hb ?_
    rwa [hidesHole.eq_6 _ _ (fun _ hc => absurd hc hdollar) (fun _ hc => absurd hc hback)
      (fun _ _ hc => absurd hc hback)] at hh

/-- A lexeme that is a string comes from the reader of strings. -/
theorem stringBody_of_scan {c : Char} {cs : List Char} {l : Lexeme} (h : scan c cs = .ok l)
    (hk : l.kind = .str) :
    isQuote c = true ∧ stringBody c 0 cs = some (l.literal.toList, l.rest) := by
  cases scan_ok_iff.1 h with
  | lineComment | number | blockComment | reference => exact Kind.noConfusion hk
  | word => exact absurd hk (wordKind_ne _).2.1
  | @string _ _ out rest hq hs =>
    refine ⟨hq, hs.trans ?_⟩
    show some (out, rest) = some ((String.ofList out).toList, rest)
    rw [String.toList_ofList]
  | heredoc _ hs =>
    rw [kind_of_heredoc hs] at hk
    exact Kind.noConfusion hk
  | mark _ hm =>
    have hmark := isMark_of_mark hm
    rw [hk] at hmark
    exact absurd hmark (by decide)

end Lexeme

/-! ## 4. All three -/

namespace Token

/-- A text in quotation marks is one token with this content, if its holes are closed. -/
theorem list_quoted_iff {q : Char} (hq : Lexeme.isQuote q = true) (s : String) :
    list (quoted q s).toList = .ok [⟨.str, s, .start, none, some q⟩,
        endOfInput (Position.behind (quoted q s).toList)] ↔
      Lexeme.closesHoles 0 s.toList = true := by
  constructor
  · intro h
    by_contra hno
    have hgap : ¬isGap q = true := by simp [Lexeme.not_isGap_of_isQuote hq]
    have hscan : Lexeme.scan q (escapeFrom q 0 s.toList ++ [q]) = .error .unterminatedString := by
      rw [Lexeme.scan_quote hq, Lexeme.string, Lexeme.stringBody_escapeFrom_eq hq, if_neg hno]
    rw [list, Lexeme.toList_quoted, listFrom_eq, List.dropWhile_cons_of_neg hgap] at h
    dsimp only at h
    rw [hscan] at h
    cases h
  · intro h
    exact (cuts_string .start hq h).list_eq trivial

/-- **The scanners of holes agree.** For every string of a text, the interpolator finds a closing
brace for every hole exactly if the content is read back from any quotation marks it is written in;
and it does unless the source of the string hides a hole. -/
theorem unclosed_not_mem_split_of_list {cs : List Char} {ts : List Token} (h : list cs = .ok ts)
    {t : Token} (ht : t ∈ ts) (hk : t.kind = .str) :
    (∃ s q body, t.ReadFrom cs s ∧ s.text cs = q :: (body ++ [q]) ∧
      (Lexeme.hidesHole 0 body = false → Piece.unclosed ∉ Piece.split t.literal.toList)) ∧
    ∀ q, Lexeme.isQuote q = true →
      (list (quoted q t.literal).toList = .ok [⟨.str, t.literal, .start, none, some q⟩,
          endOfInput (Position.behind (quoted q t.literal).toList)] ↔
        Piece.unclosed ∉ Piece.split t.literal.toList) := by
  constructor
  · obtain ⟨init, spans, rfl, hcov⟩ : ∃ init spans, ts = init ++ [endOfInput (Position.behind cs)] ∧
        Covers 0 cs init spans := @covers_of_listFrom [] cs ts h
    have hinit : t ∈ init := by
      rcases List.mem_append.1 ht with ht | ht
      · exact ht
      · rw [List.mem_singleton.1 ht] at hk
        exact Kind.noConfusion hk
    obtain ⟨s, -, hread⟩ := hcov.exists_readFrom hinit
    obtain ⟨q, text, l, hstart, hscan, hstop, hl⟩ := hread.read
    have hkind : l.kind = .str := by
      rw [hl] at hk
      exact hk
    obtain ⟨hq, hbody⟩ := Lexeme.stringBody_of_scan hscan hkind
    obtain ⟨body, rfl, hclosed⟩ := Lexeme.closesHoles_of_stringBody hq hbody
    refine ⟨s, q, body, hread, ?_, fun hh => ?_⟩
    · have hlength : s.stop - s.start = (q :: (body ++ [q])).length := by
        have h1 := congrArg List.length hstart
        have h2 := congrArg List.length hstop
        have h3 := hread.inside
        have h4 := hread.nonempty
        simp only [List.length_drop, List.length_cons, List.length_append] at h1 h2
        simp only [List.length_cons, List.length_append, List.length_nil]
        omega
      have htext : q :: (body ++ q :: l.rest) = (q :: (body ++ [q])) ++ l.rest := by simp
      rw [Span.text, hstart, htext, hlength, List.take_left]
    · have hliteral : t.literal = l.literal := by rw [hl]; rfl
      rw [hliteral, Piece.unclosed_not_mem_split_iff]
      exact hclosed hh
  · intro q hq
    rw [list_quoted_iff hq, Piece.unclosed_not_mem_split_iff]

/-- A string whose source hides a hole: to the lexer the dollar sign is escaped, to the other two a
hole begins there that nothing closes. -/
theorem unclosed_mem_split_of_list_escaped :
    let t : Token := ⟨.str, "\\$\x7ba", ⟨1, 1⟩, none, some '"'⟩
    list ['"', '\\', '$', '{', 'a', '"'] = .ok [t, endOfInput ⟨1, 7⟩] ∧
      (∃ s q body, t.ReadFrom ['"', '\\', '$', '{', 'a', '"'] s ∧
        s.text ['"', '\\', '$', '{', 'a', '"'] = q :: (body ++ [q]) ∧
        (Lexeme.hidesHole 0 body = false → Piece.unclosed ∉ Piece.split t.literal.toList)) ∧
      (∀ q, Lexeme.isQuote q = true →
        (list (quoted q t.literal).toList = .ok [⟨.str, t.literal, .start, none, some q⟩,
            endOfInput (Position.behind (quoted q t.literal).toList)] ↔
          Piece.unclosed ∉ Piece.split t.literal.toList)) ∧
      Piece.unclosed ∈ Piece.split t.literal.toList := by
  intro t
  have h : list ['"', '\\', '$', '{', 'a', '"'] = .ok [t, endOfInput ⟨1, 7⟩] := by
    refine listFrom_step rfl rfl rfl ?_
    exact listFrom_nil _
  obtain ⟨hsource, hquoted⟩ := unclosed_not_mem_split_of_list h List.mem_cons_self rfl
  refine ⟨h, hsource, hquoted, ?_⟩
  by_contra hno
  have hclosed := (Piece.unclosed_not_mem_split_iff t.literal.toList).1 hno
  exact absurd hclosed (by decide)

end Token

end BlockConfig
