import BlockConfig.Proofs.Lexing.Pieces

/-!
Rendered trees are cut into tokens that spell them.

What is asked of a tree besides the shape that the grammar gives it concerns its texts, node by node
(`Node.WritableHere`): names and strings whose holes are closed, numbers and references that read
back, comments that end where their text ends. Under these conditions the text of a node, at any
level of nesting and at any place, is cut into tokens that spell the node, whatever follows a value
that cannot be mistaken for more of a name or number, and for a statement, the end of its line.

The proof goes by induction on the tree, text by text. Lines are counted where the spelling asks for
them: the label of a block stands on the line of its kind, the parenthesis of a call on that of its
name, and a statement never begins on the line where the one before it ends.
-/

set_option autoImplicit false

namespace BlockConfig

open Text

/-- A text behind which anything may follow can be put in front of any other one. -/
theorem Cuts.before {Q : List Char → Prop} {pos : Position} {a b : List Char} {x y : List Token}
    (ha : Cuts Anything pos a x) (hb : Cuts Q (pos.advance a) b y) : Cuts Q pos (a ++ b) (x ++ y) :=
  ha.append hb fun _ _ => trivial

/-- A blank is no token. -/
theorem cuts_blank {P : List Char → Prop} {pos : Position} : Cuts P pos [' '] [] :=
  cuts_gap fun c hc => by
    rw [List.mem_singleton.1 hc]
    rfl

/-- Nor is a line feed, but it moves the position to the next line. -/
theorem cuts_lineFeed {P : List Char → Prop} {pos : Position} : Cuts P pos ['\n'] [] :=
  cuts_gap fun c hc => by
    rw [List.mem_singleton.1 hc]
    rfl

/-- An indentation is blanks. -/
theorem cuts_indentation {P : List Char → Prop} {pos : Position} (level : Nat) :
    Cuts P pos (indentation level).toList [] :=
  cuts_gap fun c hc => by
    rw [indentation, String.toList_ofList] at hc
    rw [List.eq_of_mem_replicate hc]
    rfl

namespace Node

/-! ## 1. What is to be proved -/

/-- What the texts of a node have to be like for it to be written and read back. -/
def WritableHere : Node → Prop
  | assign target _ style =>
    Writable target.name ∧ (style = .flag → isPlainName target.name.toList = true)
  | assignEach pairs => ∀ p ∈ pairs, IsIdentifier p.1.name
  | destructure targets _ => ∀ t ∈ targets, IsIdentifier t.name
  | block kind label _ _ =>
    Writable kind ∧ ∀ l ∈ label, Writable l ∧ '\n' ∉ (nameText kind).toList
  | container kind _ _ => Writable kind
  | arrow _ source target _ _ => Writable source ∧ Writable target
  | literal v => v.Writable
  | ident name | call name _ _ => isPlainName name.toList = true
  | member _ name => Writable name
  | envRef name default => IsReference name default
  | comment text => Lexeme.IsComment text.toList
  | _ => True

/-- At any level and place, the text of a node is cut into tokens that spell it. -/
def Writes (follow : List Char → Prop) (n : Node) : Prop :=
  ∀ (level : Nat) (pos : Position), ∃ ts, n.Spells Token.SameLine ts ∧
    Cuts follow pos (n.render level).toList ts

/-- A value is written so that it can stand behind an operator. -/
structure WritesValue (n : Node) : Prop where
  opens : ∀ level, Opens (n.render level).toList
  writes : n.Writes Loose

/-- What may be followed by something loose may be followed by the end of its line. -/
theorem Writes.statement {n : Node} (h : n.Writes Loose) : n.Writes Ends := by
  intro level pos
  obtain ⟨ts, hs, hcut⟩ := h level pos
  exact ⟨ts, hs, hcut.mono fun _ hr => hr.loose⟩

/-! ## 2. Statements in lines -/

/-- Statements, each on a line of its own at a level of nesting. -/
def linesText (level : Nat) (ns : List Node) : List Char :=
  (renderAll level ns).flatMap fun line => (indentation level).toList ++ (line.toList ++ ['\n'])

/-- Statements on lines of their own are cut one by one: behind each there is a line feed, so whatever comes
next begins on another line and cannot become part of it. -/
theorem cuts_lines {ns : List Node} (ih : ∀ m ∈ ns, m.Writes Ends) (level : Nat) (pos : Position) :
    ∃ ts, SpellsStatements Token.SameLine ns ts ∧ Cuts Anything pos (linesText level ns) ts := by
  induction ns generalizing pos with
  | nil => exact ⟨[], rfl, cuts_nil⟩
  | cons n ns ihs =>
    have hind : Cuts Anything pos (indentation level).toList [] := cuts_indentation level
    obtain ⟨a, ha, hca⟩ := ih n (by simp) level (pos.advance (indentation level).toList)
    have hline := hca.append cuts_lineFeed (Q := Anything) fun rest _ => by
      intro c hc
      simpa using hc.symm
    obtain ⟨b, hb, hcb⟩ := ihs (fun m hm => ih m (List.mem_cons_of_mem n hm))
      ((pos.advance (indentation level).toList).advance ((n.render level).toList ++ ['\n']))
    have htext : linesText level (n :: ns) =
        (indentation level).toList ++ ((n.render level).toList ++ ['\n'] ++ linesText level ns) := by
      simp [linesText, renderAll]
    have hcut := hind.before (hline.before hcb)
    rw [List.append_nil, List.nil_append] at hcut
    refine ⟨a ++ b, ⟨a, b, rfl, ha, hb, ?_⟩, htext ▸ hcut⟩
    intro x hx y hy hxy
    -- A line feed stands between the two.
    have h1 := (hca.lines x (List.mem_of_getLast? hx)).2
    have h2 := (hcb.lines y (List.mem_of_mem_head? hy)).1
    rw [Position.advance_append, Position.line_advance _ ['\n']] at h2
    have h3 : ['\n'].count '\n' = 1 := by decide
    have hxy : y.pos.line = x.pos.line := hxy
    omega

/-- Nodes are written as nothing only if there are none. -/
theorem renderAll_isEmpty (level : Nat) (ns : List Node) :
    (renderAll level ns).isEmpty = ns.isEmpty := by
  cases ns <;> rfl

/-- Statements in braces. Without statements the braces stand side by side; else each statement has its own
line between them. -/
theorem cuts_braced {ns : List Node} (ih : ∀ m ∈ ns, m.Writes Ends) (level : Nat)
    (pos : Position) :
    ∃ l b r, l.kind = .lbrace ∧ l.pos = pos ∧ SpellsStatements Token.SameLine ns b ∧
      r.kind = .rbrace ∧
      Cuts Anything pos (braced level (renderAll (level + 1) ns)).toList (l :: (b ++ [r])) := by
  obtain ⟨l, hl, hlp, hcl⟩ := cuts_mark pos (k := .lbrace) rfl
  cases ns with
  | nil =>
    obtain ⟨r, hr, -, hcr⟩ := cuts_mark (pos.advance ['{']) (k := .rbrace) rfl
    have htext : (braced level (renderAll (level + 1) [])).toList = ['{'] ++ ['}'] := by
      simp [braced, renderAll]
    rw [htext]
    exact ⟨l, [], r, hl, hlp, rfl, hr, hcl.before hcr⟩
  | cons n ns =>
    have hopen : Cuts Anything pos ['{', '\n'] [l] := hcl.before cuts_lineFeed
    obtain ⟨b, hb, hcb⟩ := cuts_lines ih (level + 1) (pos.advance ['{', '\n'])
    obtain ⟨r, hr, -, hcr⟩ := cuts_mark
      (((pos.advance ['{', '\n']).advance (linesText (level + 1) (n :: ns))).advance
        (indentation level).toList) (k := .rbrace) rfl
    refine ⟨l, b, r, hl, hlp, hb, hr, ?_⟩
    have htext : (braced level (renderAll (level + 1) (n :: ns))).toList =
        ['{', '\n'] ++ (linesText (level + 1) (n :: ns) ++
          ((indentation level).toList ++ ['}'])) := by
      simp [braced, renderAll_isEmpty, linesText, List.flatMap_map]
    rw [htext]
    exact hopen.before (hcb.before ((cuts_indentation level).before hcr))

/-! ## 3. Values with commas between them -/

/-- A joined list of texts begins with the first one and the separator. -/
theorem toList_join_cons (sep a b : String) (ss : List String) :
    (join sep (a :: b :: ss)).toList = a.toList ++ (sep.toList ++ (join sep (b :: ss)).toList) := by
  simp [join]

theorem loose_comma (rest : List Char) : Loose (',' :: rest) :=
  loose_cons rfl (by decide)

theorem loose_blank (rest : List Char) : Loose (' ' :: rest) :=
  loose_cons rfl (by decide)

/-- A comma and a blank are one token. -/
theorem cuts_comma (pos : Position) :
    ∃ t : Token, t.kind = .comma ∧ Cuts Anything pos [',', ' '] [t] := by
  obtain ⟨t, ht, -, hct⟩ := cuts_mark pos (k := .comma) rfl
  exact ⟨t, ht, hct.before cuts_blank⟩

/-- Values on one line, and the bracket that closes them. -/
theorem cuts_items {close : Kind} (hc : close = .rparen ∨ close = .rbracket) {ns : List Node}
    (ih : ∀ m ∈ ns, m.Writes Loose) (level : Nat) (pos : Position) :
    ∃ a, SpellsItems Token.SameLine close ns a ∧
      Cuts Anything pos ((join ", " (renderAll level ns)).toList ++ close.symbol.toList) a := by
  have hsolid : close.isSolid = true := by rcases hc with rfl | rfl <;> rfl
  have hloose : ∀ rest, Loose (close.symbol.toList ++ rest) := by
    intro rest
    rcases hc with rfl | rfl
    · exact loose_cons rfl (by decide)
    · exact loose_cons rfl (by decide)
  induction ns generalizing pos with
  | nil =>
    obtain ⟨r, hr, -, hcr⟩ := cuts_mark pos hsolid
    exact ⟨[r], ⟨r, rfl, hr⟩, hcr⟩
  | cons n ns ihs =>
    obtain ⟨a, ha, hca⟩ := ih n (by simp) level pos
    cases ns with
    | nil =>
      obtain ⟨r, hr, -, hcr⟩ := cuts_mark (pos.advance (n.render level).toList) hsolid
      refine ⟨a ++ [r], ⟨a, r, [], rfl, ha, .inr ⟨hr, rfl, rfl⟩⟩, ?_⟩
      exact hca.append hcr fun rest _ => hloose rest
    | cons m ns =>
      obtain ⟨t, ht, hct⟩ := cuts_comma (pos.advance (n.render level).toList)
      obtain ⟨b, hb, hcb⟩ := ihs (fun k hk => ih k (List.mem_cons_of_mem n hk))
        ((pos.advance (n.render level).toList).advance [',', ' '])
      refine ⟨a ++ t :: b, ⟨a, t, b, rfl, ha, .inl ⟨ht, hb⟩⟩, ?_⟩
      have hcut := hca.append (hct.before hcb) fun rest _ => loose_comma _
      rw [renderAll, renderAll, toList_join_cons, List.append_assoc, List.append_assoc]
      exact hcut

/-- Values on lines of their own with a comma behind each, and the bracket that closes them. -/
theorem cuts_itemLines {ns : List Node} (ih : ∀ m ∈ ns, m.Writes Loose) (level : Nat)
    (pos : Position) :
    ∃ a, SpellsItems Token.SameLine .rbracket ns a ∧
      Cuts Anything pos (((renderAll (level + 1) ns).flatMap fun item =>
        (indentation (level + 1)).toList ++ (item.toList ++ [',', '\n'])) ++
          ((indentation level).toList ++ [']'])) a := by
  induction ns generalizing pos with
  | nil =>
    obtain ⟨r, hr, -, hcr⟩ := cuts_mark (pos.advance (indentation level).toList)
      (k := .rbracket) rfl
    exact ⟨[r], ⟨r, rfl, hr⟩, (cuts_indentation level).before hcr⟩
  | cons n ns ihs =>
    have hind : Cuts Anything pos (indentation (level + 1)).toList [] := cuts_indentation (level + 1)
    obtain ⟨a, ha, hca⟩ := ih n (by simp) (level + 1) (pos.advance (indentation (level + 1)).toList)
    obtain ⟨t, ht, -, hct⟩ := cuts_mark
      ((pos.advance (indentation (level + 1)).toList).advance (n.render (level + 1)).toList)
      (k := .comma) rfl
    have hend : Cuts Anything _ [',', '\n'] [t] := hct.before cuts_lineFeed
    obtain ⟨b, hb, hcb⟩ := ihs (fun k hk => ih k (List.mem_cons_of_mem n hk))
      (((pos.advance (indentation (level + 1)).toList).advance
        (n.render (level + 1)).toList).advance [',', '\n'])
    refine ⟨a ++ t :: b, ⟨a, t, b, rfl, ha, .inl ⟨ht, hb⟩⟩, ?_⟩
    have hcut := hind.before (hca.append (hend.before hcb) fun rest _ => loose_comma _)
    rw [List.nil_append] at hcut
    rw [renderAll, List.flatMap_cons]
    simpa using hcut

/-- Pairs of a name and a value, joined by commas. -/
theorem cuts_pairs {pairs : List (Target × Node)} (ih : ∀ p ∈ pairs, p.2.Writes Loose) (level : Nat)
    (pos : Position) :
    ∃ a, SpellsValues Token.SameLine pairs a ∧
      Cuts Loose pos (join ", " (renderPairs level pairs)).toList a := by
  induction pairs generalizing pos with
  | nil => exact ⟨[], rfl, cuts_nil⟩
  | cons p ps ihs =>
    obtain ⟨target, value⟩ := p
    obtain ⟨a, ha, hca⟩ := ih (target, value) (by simp) level pos
    cases ps with
    | nil => exact ⟨a, .inl ⟨rfl, ha⟩, hca⟩
    | cons q qs =>
      obtain ⟨t, ht, hct⟩ := cuts_comma (pos.advance (value.render level).toList)
      obtain ⟨b, hb, hcb⟩ := ihs (fun r hr => ih r (List.mem_cons_of_mem _ hr))
        ((pos.advance (value.render level).toList).advance [',', ' '])
      refine ⟨a ++ t :: b, .inr ⟨a, t, b, rfl, by simp, ha, ht, hb⟩, ?_⟩
      have hcut := hca.append (hct.before hcb) fun rest _ => loose_comma _
      obtain ⟨target', value'⟩ := q
      rw [renderPairs, renderPairs, toList_join_cons]
      exact hcut

/-- Names joined by commas. -/
theorem cuts_names {names : List String} (h : ∀ s ∈ names, IsIdentifier s) (pos : Position) :
    ∃ a, SpellsNames names a ∧ Cuts Loose pos (join ", " names).toList a := by
  induction names generalizing pos with
  | nil => exact ⟨[], rfl, cuts_nil⟩
  | cons name names ih =>
    obtain ⟨t, ht, -, hct⟩ := cuts_word pos (h name (by simp))
    cases names with
    | nil => exact ⟨[t], ⟨t, rfl, ht⟩, hct⟩
    | cons second names =>
      obtain ⟨comma, hk, hcc⟩ := cuts_comma (pos.advance name.toList)
      obtain ⟨b, hb, hcb⟩ := ih (fun s hs => h s (List.mem_cons_of_mem name hs))
        ((pos.advance name.toList).advance [',', ' '])
      refine ⟨t :: comma :: b, ⟨t, comma, b, rfl, ht, hk, hb⟩, ?_⟩
      have hcut := hct.append (hcc.before hcb) fun rest _ => loose_comma _
      rw [toList_join_cons]
      exact hcut

/-! ## 4. Parts of larger statements -/

/-- An equals sign directly in front of a value. -/
theorem cuts_equals {text : List Char} (h : Opens text) (pos : Position) :
    ∃ t : Token, t.kind = .assign ∧
      Cuts (fun rest => ∃ more, rest = text ++ more) pos ['='] [t] := by
  obtain ⟨c, cs, rfl, hc, -⟩ := h
  refine ⟨⟨.assign, "=", pos, none, none⟩, rfl, cuts_lexeme rfl ?_⟩
  rintro _ ⟨more, rfl⟩
  have hpair : Lexeme.pairKind? '=' c = none := by
    unfold Lexeme.pairKind?
    split <;> first | rfl | simp_all
  simp [Lexeme.scan, Lexeme.mark, Lexeme.isNameStart, Lexeme.isQuote, hpair, Lexeme.singleKind?,
    Lexeme.plain]

/-- An argument of `@exec`: its key, and the value directly behind the sign. -/
theorem cuts_argument (key : String) (hk : IsIdentifier key) {n : Node} (h : n.WritesValue)
    (level : Nat) (pos : Position) :
    ∃ t eq a, t.IsWord key ∧ eq.kind = .assign ∧ n.Spells Token.SameLine a ∧
      Cuts Loose pos (key.toList ++ ('=' :: (n.render level).toList)) (t :: eq :: a) := by
  obtain ⟨t, ht, -, hct⟩ := cuts_word pos hk
  obtain ⟨eq, he, hce⟩ := cuts_equals (h.opens level) (pos.advance key.toList)
  obtain ⟨a, ha, hca⟩ := h.writes level ((pos.advance key.toList).advance ['='])
  refine ⟨t, eq, a, ht, he, ha, ?_⟩
  have hvalue := hce.append hca fun rest _ => ⟨rest, rfl⟩
  exact hct.append hvalue fun rest _ => loose_cons rfl (by decide)

/-- An argument that may be missing is nothing, or a key with an equals sign and a value behind a comma. -/
theorem cuts_option (key : String) (hk : IsIdentifier key) {n : Option Node}
    (h : ∀ m ∈ n, m.WritesValue) (level : Nat) (pos : Position) :
    ∃ a, SpellsOption Token.SameLine key n a ∧
      Cuts Loose pos (renderOption level (", " ++ key ++ "=") n).toList a := by
  cases n with
  | none => exact ⟨[], rfl, cuts_nil⟩
  | some n =>
    obtain ⟨comma, hc, hcc⟩ := cuts_comma pos
    obtain ⟨t, eq, a, ht, he, ha, hca⟩ := cuts_argument key hk (h n rfl) level (pos.advance [',', ' '])
    refine ⟨comma :: t :: eq :: a, ⟨comma, t, eq, a, rfl, hc, ht, he, ha⟩, ?_⟩
    have hcut := hcc.before hca
    simpa [renderOption] using hcut

/-- A condition in parentheses, between blanks. -/
theorem cuts_condition {n : Node} (h : n.Writes Loose) (level : Nat) (pos : Position) :
    ∃ l a r, l.kind = .lparen ∧ n.Spells Token.SameLine a ∧ r.kind = .rparen ∧
      Cuts Anything pos (' ' :: '(' :: ((n.render level).toList ++ [')', ' '])) (l :: (a ++ [r])) := by
  obtain ⟨l, hl, -, hcl⟩ := cuts_mark (pos.advance [' ']) (k := .lparen) rfl
  obtain ⟨a, ha, hca⟩ := h level ((pos.advance [' ']).advance ['('])
  obtain ⟨r, hr, -, hcr⟩ := cuts_mark
    (((pos.advance [' ']).advance ['(']).advance (n.render level).toList) (k := .rparen) rfl
  refine ⟨l, a, r, hl, ha, hr, ?_⟩
  have hback : Cuts Anything _ [')', ' '] [r] := hcr.before cuts_blank
  have hinner := hca.append hback fun rest _ => loose_cons rfl (by decide)
  have hfront : Cuts Anything pos [' '] [] := cuts_blank
  exact hfront.before (hcl.before hinner)

/-- The links of an `IF` chain, from one with a given keyword on. -/
theorem cuts_branches {keyword : Kind} (hk : keyword = .ifWord ∨ keyword = .elseIfWord)
    {bs : List (Branch Node)} (hc : ∀ b ∈ bs, ∀ c ∈ b.condition, c.Writes Loose)
    (hb : ∀ b ∈ bs, ∀ m ∈ b.body, m.Writes Ends) (level : Nat) (pos : Position) :
    ∃ ts, SpellsBranches Token.SameLine keyword bs ts ∧
      Cuts Anything pos (renderBranches level keyword.symbol bs).toList ts := by
  induction bs generalizing keyword pos with
  | nil => exact ⟨[], rfl, cuts_nil⟩
  | cons link bs ih =>
    obtain ⟨condition, body, place⟩ := link
    have hbody : ∀ m ∈ body, m.Writes Ends := hb ⟨condition, body, place⟩ (by simp)
    -- What stands behind the first link.
    have tail : ∀ p : Position, ∃ ts, SpellsBranches Token.SameLine .elseIfWord bs ts ∧
        Cuts Anything p
          (if bs.isEmpty then "" else " " ++ renderBranches level "ELSEIF" bs).toList ts := by
      intro p
      obtain ⟨ts, hs, hcut⟩ := ih (.inr rfl) (fun b h => hc b (List.mem_cons_of_mem _ h))
        (fun b h => hb b (List.mem_cons_of_mem _ h)) (p.advance [' '])
      cases bs with
      | nil => exact ⟨[], rfl, cuts_nil⟩
      | cons b bs =>
        refine ⟨ts, hs, ?_⟩
        have hblank : Cuts Anything p [' '] [] := cuts_blank
        have hline := hblank.before hcut
        simpa [Kind.symbol] using hline
    cases condition with
    | some condition =>
      obtain ⟨word, hw, -, hcw⟩ := cuts_keyword pos (k := keyword)
        (hk.elim .inl fun h => .inr (.inl h))
      obtain ⟨l, a, r, hl, ha, hr, hca⟩ := cuts_condition
        (hc ⟨some condition, body, place⟩ (by simp) condition rfl) level
        (pos.advance keyword.symbol.toList)
      obtain ⟨l', b, r', hl', -, hsb, hr', hcb⟩ := cuts_braced hbody level
        ((pos.advance keyword.symbol.toList).advance
          (' ' :: '(' :: ((condition.render level).toList ++ [')', ' '])))
      obtain ⟨rest, hs, hct⟩ := tail (((pos.advance keyword.symbol.toList).advance
          (' ' :: '(' :: ((condition.render level).toList ++ [')', ' ']))).advance
            (braced level (renderAll (level + 1) body)).toList)
      refine ⟨word :: l :: (a ++ r :: l' :: (b ++ r' :: rest)),
        ⟨word, l, a, r, l', b, r', rest, rfl, hw, hl, ha, hr, hl', hsb, hr', hs⟩, ?_⟩
      have hcut := hcw.append (hca.before (hcb.before hct)) fun rest _ => loose_blank _
      rw [renderBranches]
      simpa using hcut
    | none =>
      obtain ⟨word, hw, -, hcw⟩ := cuts_keyword pos (k := .elseWord) (.inr (.inr rfl))
      obtain ⟨l, b, r, hl, -, hsb, hr, hcb⟩ := cuts_braced hbody level
        ((pos.advance Kind.elseWord.symbol.toList).advance [' '])
      obtain ⟨rest, hs, hct⟩ := tail (((pos.advance Kind.elseWord.symbol.toList).advance
        [' ']).advance (braced level (renderAll (level + 1) body)).toList)
      refine ⟨word :: l :: (b ++ r :: rest), ⟨word, l, b, r, rest, rfl, hw, hl, hsb, hr, hs⟩, ?_⟩
      have hblank : Cuts Anything (pos.advance Kind.elseWord.symbol.toList) [' '] [] := cuts_blank
      have hcut := hcw.append (hblank.before (hcb.before hct)) fun rest _ => loose_blank _
      rw [renderBranches]
      simpa [Kind.symbol] using hcut

/-! ## 5. Values -/

/-- An identifier begins with a letter or an underscore, so it opens a token of its own. -/
theorem opens_of_identifier {name : String} (h : IsIdentifier name) : Opens name.toList := by
  obtain ⟨c, cs, hn, hc, -⟩ := h
  rw [hn]
  exact opens_of_isNameRest (Lexeme.isNameRest_of_isNameStart hc) cs

/-- An identifier has no line feed, so what stands behind it is on its line. -/
theorem line_advance_of_identifier {name : String} (h : IsIdentifier name) (pos : Position) :
    (pos.advance name.toList).line = pos.line := by
  obtain ⟨c, cs, hn, hc, hcs, -⟩ := h
  have hmem : '\n' ∉ name.toList := by
    rw [hn]
    intro hm
    rcases List.mem_cons.1 hm with hm | hm
    · rw [← hm] at hc
      exact absurd hc (by decide)
    · exact absurd (hcs _ hm) (by decide)
  rw [Position.line_advance, List.count_eq_zero.2 hmem, Nat.add_zero]

/-- A point in front of a rendered name ends the number or name before it. -/
theorem loose_point (name : String) (rest : List Char) :
    Loose ('.' :: ((nameText name).toList ++ rest)) where
  name := by
    intro c hc
    obtain rfl : '.' = c := by simpa using hc
    decide
  point := by
    intro d cs he
    obtain ⟨c, ds, hn, hc⟩ := nameText_head name
    rw [hn, List.cons_append] at he
    obtain ⟨-, he⟩ := List.cons.inj he
    obtain ⟨rfl, -⟩ := List.cons.inj he
    exact hc

-- From here on texts are taken apart by the equations of `render`.
attribute [local simp] render

/-- A literal is one token. -/
theorem writesValue_literal {v : Literal} (h : v.Writable) : (literal v).WritesValue where
  opens _ := (cuts_literal .start h).1
  writes _ pos := by
    obtain ⟨-, t, ht, hcut⟩ := cuts_literal pos h
    exact ⟨[t], ⟨t, rfl, ht⟩, hcut⟩

/-- A name as a value is one token, which must not be a keyword or a truth value. -/
theorem writesValue_ident {name : String} (h : isPlainName name.toList = true) :
    (ident name).WritesValue := by
  obtain ⟨hi, hn⟩ := (isPlainName_iff name).1 h
  refine ⟨fun _ => opens_of_identifier hi, fun level pos => ?_⟩
  obtain ⟨t, ht, -, hcut⟩ := cuts_word pos hi
  exact ⟨[t], ⟨t, rfl, ht, hn⟩, hcut⟩

/-- A reference to the environment is one token, braces included. -/
theorem writesValue_envRef {name : String} {default : Option String} (h : IsReference name default) :
    (envRef name default).WritesValue where
  opens _ := (cuts_reference .start h).1
  writes _ pos := by
    obtain ⟨-, t, hk, ht, hcut⟩ := cuts_reference pos h
    exact ⟨[t], ⟨t, rfl, hk, ht⟩, hcut.mono fun _ _ => trivial⟩

/-- A member is written behind a dot. The dot ends the token in front of it, and the name of the member is
quoted if need be. -/
theorem writesValue_member {left : Node} {name : String} (h : left.WritesValue)
    (hn : Writable name) : (member left name).WritesValue where
  opens level := by
    have hopen := (h.opens level).append ('.' :: (nameText name).toList)
    simpa using hopen
  writes level pos := by
    obtain ⟨a, ha, hca⟩ := h.writes level pos
    obtain ⟨dot, hd, -, hcd⟩ := cuts_mark (pos.advance (left.render level).toList) (k := .dot) rfl
    obtain ⟨t, ht, -, hct⟩ := cuts_name ((pos.advance (left.render level).toList).advance ['.']) hn
    refine ⟨a ++ [dot, t], ⟨a, dot, t, rfl, ha, hd, ht⟩, ?_⟩
    have hmember : Cuts Loose _ ('.' :: (nameText name).toList) [dot, t] := hcd.before hct
    have hcut := hca.append hmember fun rest _ => loose_point name rest
    simpa using hcut

/-- An operator is written between blanks, so that it is cut off on both sides. -/
theorem writesValue_binary (op : BinaryOp) {left right : Node} (hl : left.WritesValue)
    (hr : right.WritesValue) : (binary op left right).WritesValue where
  opens level := by
    have hopen := (hl.opens level).append
      (' ' :: (op.symbol.toList ++ ' ' :: (right.render level).toList))
    simpa using hopen
  writes level pos := by
    obtain ⟨a, ha, hca⟩ := hl.writes level pos
    obtain ⟨t, ht, hct⟩ := cuts_operator (pos.advance (left.render level).toList) op
    obtain ⟨b, hb, hcb⟩ := hr.writes level
      ((pos.advance (left.render level).toList).advance (' ' :: (op.symbol.toList ++ [' '])))
    refine ⟨a ++ t :: b, ⟨a, t, b, rfl, ha, .inl ht, hb⟩, ?_⟩
    have hcut := hca.append (hct.before hcb) fun rest _ => loose_blank _
    simpa using hcut

/-- A prefix operator stands right in front of its operand. None of the two can be read together with what
an operand begins with. -/
theorem writesValue_unary (op : UnaryOp) {operand : Node} (h : operand.WritesValue) :
    (unary op operand).WritesValue where
  opens level := by
    obtain ⟨-, front, -, htext, hopen, -⟩ := cuts_unaryOp .start op (h.opens level)
    rw [render, htext]
    exact hopen.append _
  writes level pos := by
    obtain ⟨t, front, ht, htext, -, hct⟩ := cuts_unaryOp pos op (h.opens level)
    obtain ⟨a, ha, hca⟩ := h.writes level (pos.advance front)
    refine ⟨t :: a, ⟨t, a, rfl, ht, ha⟩, ?_⟩
    rw [render, htext]
    exact hct.append hca fun rest _ => ⟨rest, rfl⟩

/-- A choice has blanks around its marks, as operators have. -/
theorem writesValue_ternary {condition yes no : Node} (hc : condition.WritesValue)
    (hy : yes.WritesValue) (hn : no.WritesValue) : (ternary condition yes no).WritesValue where
  opens level := by
    have hopen := (hc.opens level).append
      (" ? " ++ yes.render level ++ " : " ++ no.render level).toList
    simpa using hopen
  writes level pos := by
    obtain ⟨a, ha, hca⟩ := hc.writes level pos
    obtain ⟨q, hq, hcq⟩ := cuts_sign (pos.advance (condition.render level).toList) (k := .question)
      (.inr (.inr (.inl rfl)))
    obtain ⟨b, hb, hcb⟩ := hy.writes level
      ((pos.advance (condition.render level).toList).advance [' ', '?', ' '])
    obtain ⟨colon, hk, hck⟩ := cuts_sign
      (((pos.advance (condition.render level).toList).advance [' ', '?', ' ']).advance
        (yes.render level).toList) (k := .colon) (.inr (.inr (.inr rfl)))
    obtain ⟨d, hd, hcd⟩ := hn.writes level
      ((((pos.advance (condition.render level).toList).advance [' ', '?', ' ']).advance
        (yes.render level).toList).advance [' ', ':', ' '])
    refine ⟨a ++ q :: (b ++ colon :: d), ⟨a, q, b, colon, d, rfl, ha, hq, hb, hk, hd⟩, ?_⟩
    have htail := hcb.append (hck.before hcd) fun rest _ => loose_blank _
    have hcut := hca.append (hcq.before htail) fun rest _ => loose_blank _
    simpa [Kind.symbol] using hcut

/-- Parentheses are tokens of their own, whatever stands between them. -/
theorem writesValue_group {inner : Node} (h : inner.WritesValue) : (group inner).WritesValue where
  opens level := ⟨'(', ((inner.render level) ++ ")").toList, by simp, by decide, by decide⟩
  writes level pos := by
    obtain ⟨l, hl, -, hcl⟩ := cuts_mark pos (k := .lparen) rfl
    obtain ⟨a, ha, hca⟩ := h.writes level (pos.advance ['('])
    obtain ⟨r, hr, -, hcr⟩ := cuts_mark ((pos.advance ['(']).advance (inner.render level).toList)
      (k := .rparen) rfl
    refine ⟨l :: (a ++ [r]), ⟨l, a, r, rfl, hl, ha, hr⟩, ?_⟩
    have hinner := hca.append hcr fun rest _ => loose_cons rfl (by decide)
    have hcut := (hcl.before hinner).mono (Q := Loose) fun _ _ => trivial
    simpa [Kind.symbol] using hcut

/-- The parenthesis of a call stands on the line of its name, right behind it. -/
theorem writesValue_call {name : String} (hname : isPlainName name.toList = true)
    {args : List Node} (h : ∀ m ∈ args, m.WritesValue) (place : Position) :
    (call name args place).WritesValue := by
  obtain ⟨hi, hn⟩ := (isPlainName_iff name).1 hname
  constructor
  · intro level
    have hopen := (opens_of_identifier hi).append ("(" ++ join ", " (renderAll level args) ++ ")").toList
    simpa using hopen
  · intro level pos
    obtain ⟨t, ht, hp, hct⟩ := cuts_word pos hi
    obtain ⟨l, hl, hlp, hcl⟩ := cuts_mark (pos.advance name.toList) (k := .lparen) rfl
    obtain ⟨a, ha, hca⟩ := cuts_items (.inl rfl) (fun m hm => (h m hm).writes) level
      ((pos.advance name.toList).advance ['('])
    refine ⟨t :: l :: a, ⟨t, l, a, rfl, ht, hn, hl, ?_, ha⟩, ?_⟩
    · show l.pos.line = t.pos.line
      rw [hlp, hp, line_advance_of_identifier hi]
    · have hcut := hct.append (hcl.before hca) fun rest _ => loose_cons rfl (by decide)
      have hcut := hcut.mono (Q := Loose) fun _ _ => trivial
      simpa [Kind.symbol] using hcut

/-- A list is written on one line, its items joined by commas. -/
theorem writesValue_list {items : List Node} (h : ∀ m ∈ items, m.WritesValue) :
    (list items).WritesValue where
  opens level := by
    rw [render, listText]
    split <;> exact ⟨'[', _, by simp; rfl, by decide, by decide⟩
  writes level pos := by
    have hw : ∀ m ∈ items, m.Writes Loose := fun m hm => (h m hm).writes
    obtain ⟨l, hl, -, hcl⟩ := cuts_mark pos (k := .lbracket) rfl
    by_cases hin : items.all isLiteral = true
    · obtain ⟨a, ha, hca⟩ := cuts_items (.inr rfl) hw level (pos.advance ['['])
      refine ⟨l :: a, ⟨l, a, rfl, hl, ha⟩, ?_⟩
      have hcut := (hcl.before hca).mono (Q := Loose) fun _ _ => trivial
      simpa [listText, hin, Kind.symbol] using hcut
    · have hopen : Cuts Anything pos ['[', '\n'] [l] := hcl.before cuts_lineFeed
      obtain ⟨a, ha, hca⟩ := cuts_itemLines hw level (pos.advance ['[', '\n'])
      refine ⟨l :: a, ⟨l, a, rfl, hl, ha⟩, ?_⟩
      have hcut := (hopen.before hca).mono (Q := Loose) fun _ _ => trivial
      simpa [listText, hin, List.flatMap_map] using hcut

/-- A map is written as statements in braces. -/
theorem writesValue_entries {entries : List Node} (h : ∀ m ∈ entries, m.Writes Ends) {n : Node}
    (hn : n = map entries ∨ n = combinedMap entries) : n.WritesValue := by
  have hrender : ∀ level, n.render level = braced level (renderAll (level + 1) entries) := by
    intro level
    rcases hn with rfl | rfl <;> rw [render]
  constructor
  · intro level
    rw [hrender, braced]
    split
    · exact ⟨'{', ['}'], rfl, by decide, by decide⟩
    · exact ⟨'{', _, by simp; rfl, by decide, by decide⟩
  · intro level pos
    obtain ⟨l, b, r, hl, -, hb, hr, hcut⟩ := cuts_braced h level pos
    refine ⟨l :: (b ++ [r]), ?_, by rw [hrender]; exact hcut.mono fun _ _ => trivial⟩
    rcases hn with rfl | rfl <;> exact ⟨l, b, r, rfl, hl, hb, hr⟩

/-! ## 6. Directives -/

/-- A directive: the sign, the word behind it, and what they introduce. -/
theorem cuts_directive (word : String) (h : IsIdentifier word) (pos : Position) :
    ∃ sign t, sign.kind = .atSign ∧ t.IsWord word ∧ Cuts Loose pos ('@' :: word.toList) [sign, t] := by
  obtain ⟨sign, hs, -, hcs⟩ := cuts_mark pos (k := .atSign) rfl
  obtain ⟨t, ht, -, hct⟩ := cuts_word (pos.advance ['@']) h
  exact ⟨sign, t, hs, ht, hcs.before hct⟩

/-- A plain name is an identifier: it is a word, and none of the words with a meaning. -/
theorem isIdentifier_of_isPlainName {name : String} (h : isPlainName name.toList = true) :
    IsIdentifier name :=
  ((isPlainName_iff name).1 h).1

/-- The sign and the name of a directive are two tokens, and a blank stands before its target. -/
theorem writesValue_inclusion {target : Node} (h : target.WritesValue) (place : Position) :
    (inclusion target place).WritesValue where
  opens level := ⟨'@', ("include " ++ target.render level).toList, by simp, by decide,
    by decide⟩
  writes level pos := by
    obtain ⟨sign, t, hs, ht, hcd⟩ := cuts_directive "include"
      (isIdentifier_of_isPlainName rfl) pos
    have hblank : Cuts Anything (pos.advance ('@' :: "include".toList)) [' '] [] := cuts_blank
    obtain ⟨a, ha, hca⟩ := h.writes level ((pos.advance ('@' :: "include".toList)).advance [' '])
    refine ⟨sign :: t :: a, ⟨sign, t, a, rfl, hs, ht, ha⟩, ?_⟩
    have hcut := hcd.append (hblank.before hca) fun rest _ => loose_blank _
    simpa using hcut

/-- A pipeline is its sign and name and statements in braces. -/
theorem writesValue_pipeline {body : List Node} (h : ∀ m ∈ body, m.Writes Ends) (place : Position) :
    (pipeline body place).WritesValue where
  opens level := ⟨'@', ("pipeline " ++ braced level (renderAll (level + 1) body)).toList,
    by simp, by decide, by decide⟩
  writes level pos := by
    obtain ⟨sign, t, hs, ht, hcd⟩ := cuts_directive "pipeline"
      (isIdentifier_of_isPlainName rfl) pos
    have hblank : Cuts Anything (pos.advance ('@' :: "pipeline".toList)) [' '] [] := cuts_blank
    obtain ⟨l, b, r, hl, -, hb, hr, hcb⟩ := cuts_braced h level
      ((pos.advance ('@' :: "pipeline".toList)).advance [' '])
    refine ⟨sign :: t :: l :: (b ++ [r]), ⟨sign, t, l, b, r, rfl, hs, ht, hl, hb, hr⟩, ?_⟩
    have hcut := hcd.append (hblank.before hcb) fun rest _ => loose_blank _
    have hcut := hcut.mono (Q := Loose) fun _ _ => trivial
    simpa using hcut

/-- An argument of `@exec` that may be missing ends the one before it. -/
theorem loose_option (key : String) (level : Nat) (n : Option Node) {rest : List Char}
    (h : Loose rest) : Loose ((renderOption level (", " ++ key ++ "=") n).toList ++ rest) := by
  cases n with
  | none => exact h
  | some n =>
    have hcons : Loose (',' :: (" " ++ key ++ "=" ++ n.render level).toList ++ rest) := loose_comma _
    simpa [renderOption] using hcons

/-- An execution writes its command first and the two other arguments only if they are there. -/
theorem writesValue_exec {cmd : Node} {args dir : Option Node} (hc : cmd.WritesValue)
    (ha : ∀ m ∈ args, m.WritesValue) (hd : ∀ m ∈ dir, m.WritesValue) (place : Position) :
    (exec cmd args dir place).WritesValue where
  opens level := ⟨'@', ("exec(cmd=" ++ cmd.render level ++ renderOption level ", args=" args ++
      renderOption level ", dir=" dir ++ ")").toList, by simp, by decide, by decide⟩
  writes level pos := by
    obtain ⟨sign, t, hs, ht, hcs⟩ := cuts_directive "exec"
      (isIdentifier_of_isPlainName rfl) pos
    obtain ⟨l, hl, -, hcl⟩ := cuts_mark (pos.advance ('@' :: "exec".toList)) (k := .lparen) rfl
    -- The arguments, each at the place where the one before it ends.
    obtain ⟨key, eq, a, hk, he, hsa, hca⟩ := cuts_argument "cmd"
      (isIdentifier_of_isPlainName rfl) hc level
      ((pos.advance ('@' :: "exec".toList)).advance ['('])
    obtain ⟨b, hsb, hcb⟩ := cuts_option "args" (isIdentifier_of_isPlainName rfl) ha level
      (((pos.advance ('@' :: "exec".toList)).advance ['(']).advance
        ("cmd".toList ++ '=' :: (cmd.render level).toList))
    obtain ⟨d, hsd, hcd⟩ := cuts_option "dir" (isIdentifier_of_isPlainName rfl) hd level
      ((((pos.advance ('@' :: "exec".toList)).advance ['(']).advance
        ("cmd".toList ++ '=' :: (cmd.render level).toList)).advance
          (renderOption level (", " ++ "args" ++ "=") args).toList)
    obtain ⟨r, hr, -, hcr⟩ := cuts_mark
      (((((pos.advance ('@' :: "exec".toList)).advance ['(']).advance
        ("cmd".toList ++ '=' :: (cmd.render level).toList)).advance
          (renderOption level (", " ++ "args" ++ "=") args).toList).advance
            (renderOption level (", " ++ "dir" ++ "=") dir).toList) (k := .rparen) rfl
    refine ⟨sign :: t :: l :: key :: eq :: (a ++ (b ++ (d ++ [r]))),
      ⟨sign, t, l, key, eq, a, b, d, r, rfl, hs, ht, hl, hk, he, hsa, hsb, hsd, hr⟩, ?_⟩
    have hclose : ∀ rest, Loose (Kind.rparen.symbol.toList ++ rest) :=
      fun rest => loose_cons rfl (by decide)
    have h1 := hcd.append hcr fun rest _ => hclose rest
    have h2 := hcb.append h1 fun rest _ => by
      rw [List.append_assoc]
      exact loose_option "dir" level dir (hclose rest)
    have h3 := hca.append h2 fun rest _ => by
      rw [List.append_assoc, List.append_assoc]
      exact loose_option "args" level args (loose_option "dir" level dir (hclose rest))
    have h4 := hcs.append (hcl.before h3) fun rest _ => loose_cons rfl (by decide)
    have hcut := h4.mono (Q := Loose) fun _ _ => trivial
    simpa [Kind.symbol] using hcut

/-! ## 7. Statements -/

/-- An assignment to one name in its three styles. A flag is nothing but its name, which is why that must be
a plain one. -/
theorem writes_assign {target : Target} {value : Node} {style : AssignStyle}
    (hn : Writable target.name) (hf : style = .flag → isPlainName target.name.toList = true)
    (h : value.WritesValue) : (assign target value style).Writes Loose := by
  intro level pos
  cases style with
  | flag =>
    have hp := hf rfl
    obtain ⟨t, ht, -, hct⟩ := cuts_word pos (isIdentifier_of_isPlainName hp)
    refine ⟨[t], ⟨t, rfl, ht⟩, ?_⟩
    simpa [nameText, hp] using hct
  | colon =>
    obtain ⟨t, ht, -, hct⟩ := cuts_name pos hn
    obtain ⟨sign, hs, -, hcs⟩ := cuts_mark (pos.advance (nameText target.name).toList) (k := .colon)
      rfl
    have hsign : Cuts Anything _ [':', ' '] [sign] := hcs.before cuts_blank
    obtain ⟨a, ha, hca⟩ := h.writes level
      ((pos.advance (nameText target.name).toList).advance [':', ' '])
    refine ⟨t :: sign :: a, ⟨t, sign, a, rfl, ht, hs, ha⟩, ?_⟩
    have hcut := hct.append (hsign.before hca) fun rest _ => loose_cons rfl (by decide)
    simpa using hcut
  | equals =>
    obtain ⟨t, ht, -, hct⟩ := cuts_name pos hn
    obtain ⟨sign, hs, hcs⟩ := cuts_sign (pos.advance (nameText target.name).toList) (k := .assign)
      (.inl rfl)
    obtain ⟨a, ha, hca⟩ := h.writes level
      ((pos.advance (nameText target.name).toList).advance [' ', '=', ' '])
    refine ⟨t :: sign :: a, ⟨t, sign, a, rfl, ht, hs, ha⟩, ?_⟩
    have hcut := hct.append (hcs.before hca) fun rest _ => loose_blank _
    simpa [Kind.symbol] using hcut

/-- Names, an equals sign, and what is assigned to them. -/
theorem cuts_assignment {names : List String} (hn : ∀ s ∈ names, IsIdentifier s) {text : List Char}
    {p : List Token → Prop} (h : ∀ pos, ∃ a, p a ∧ Cuts Loose pos text a) (pos : Position) :
    ∃ ns sign a, SpellsNames names ns ∧ sign.kind = .assign ∧ p a ∧
      Cuts Loose pos ((join ", " names).toList ++ (' ' :: '=' :: ' ' :: text)) (ns ++ sign :: a) := by
  obtain ⟨ns, hns, hcn⟩ := cuts_names hn pos
  obtain ⟨sign, hs, hcs⟩ := cuts_sign (pos.advance (join ", " names).toList) (k := .assign)
    (.inl rfl)
  obtain ⟨a, ha, hca⟩ := h ((pos.advance (join ", " names).toList).advance [' ', '=', ' '])
  exact ⟨ns, sign, a, hns, hs, ha, hcn.append (hcs.before hca) fun rest _ => loose_blank _⟩

/-- Several targets are written before the equals sign and their values behind it, both joined by commas. -/
theorem writes_assignEach {pairs : List (Target × Node)} (hn : ∀ p ∈ pairs, IsIdentifier p.1.name)
    (h : ∀ p ∈ pairs, p.2.WritesValue) : (assignEach pairs).Writes Loose := by
  intro level pos
  have hnames : ∀ s ∈ pairs.map fun p => p.1.name, IsIdentifier s := by
    intro s hs
    obtain ⟨p, hp, rfl⟩ := List.mem_map.1 hs
    exact hn p hp
  obtain ⟨ns, sign, a, hns, hs, ha, hcut⟩ := cuts_assignment hnames
    (fun pos => cuts_pairs (fun p hp => (h p hp).writes) level pos) pos
  have htext : ((assignEach pairs).render level).toList =
      (join ", " (pairs.map fun p => p.1.name)).toList ++
        (' ' :: '=' :: ' ' :: (join ", " (renderPairs level pairs)).toList) := by
    rw [render, String.toList_append, String.toList_append, List.append_assoc]
    rfl
  rw [htext]
  exact ⟨ns ++ sign :: a, ⟨ns, sign, a, rfl, hns, hs, ha⟩, hcut⟩

/-- Several targets with one value. -/
theorem writes_destructure {targets : List Target} {source : Node}
    (hn : ∀ t ∈ targets, IsIdentifier t.name) (h : source.WritesValue) :
    (destructure targets source).Writes Loose := by
  intro level pos
  have hnames : ∀ s ∈ targets.map Target.name, IsIdentifier s := by
    intro s hs
    obtain ⟨t, ht, rfl⟩ := List.mem_map.1 hs
    exact hn t ht
  obtain ⟨ns, sign, a, hns, hs, ha, hcut⟩ := cuts_assignment hnames (h.writes level) pos
  refine ⟨ns ++ sign :: a, ⟨ns, sign, a, rfl, hns, hs, ha⟩, ?_⟩
  simpa using hcut

/-- A name with a body in braces behind it. -/
theorem cuts_body {name : String} (hn : Writable name) {body : List Node}
    (h : ∀ m ∈ body, m.Writes Ends) (level : Nat) (pos : Position) :
    ∃ t l b r, t.Names name ∧ l.kind = .lbrace ∧ SpellsStatements Token.SameLine body b ∧
      r.kind = .rbrace ∧
      Cuts Anything pos ((nameText name).toList ++
        (' ' :: (braced level (renderAll (level + 1) body)).toList)) (t :: l :: (b ++ [r])) := by
  obtain ⟨t, ht, -, hct⟩ := cuts_name pos hn
  have hblank : Cuts Anything (pos.advance (nameText name).toList) [' '] [] := cuts_blank
  obtain ⟨l, b, r, hl, -, hb, hr, hcb⟩ := cuts_braced h level
    ((pos.advance (nameText name).toList).advance [' '])
  exact ⟨t, l, b, r, ht, hl, hb, hr, hct.append (hblank.before hcb) fun rest _ => loose_blank _⟩

/-- A block with a label. Kind, label and brace have to stand on one line, so the kind must not bring a line
feed along. -/
theorem writes_block {kind : String} {label : Option String} {body : List Node}
    (hk : Writable kind) (hl : ∀ l ∈ label, Writable l ∧ '\n' ∉ (nameText kind).toList)
    (h : ∀ m ∈ body, m.Writes Ends) (place : Position) :
    (block kind label body place).Writes Loose := by
  intro level pos
  cases label with
  | none =>
    obtain ⟨t, l, b, r, ht, hl, hb, hr, hcut⟩ := cuts_body hk h level pos
    refine ⟨t :: l :: (b ++ [r]), ⟨t, l, b, r, rfl, ht, hl, hb, hr⟩, ?_⟩
    have hcut := hcut.mono (Q := Loose) fun _ _ => trivial
    simpa using hcut
  | some label =>
    obtain ⟨hw, hline⟩ := hl label rfl
    obtain ⟨t, ht, hp, hct⟩ := cuts_name pos hk
    have hblank : Cuts Anything (pos.advance (nameText kind).toList) [' '] [] := cuts_blank
    obtain ⟨u, hu, hup, hcu⟩ := cuts_name ((pos.advance (nameText kind).toList).advance [' ']) hw
    have hblank' : Cuts Anything (((pos.advance (nameText kind).toList).advance [' ']).advance
      (nameText label).toList) [' '] [] := cuts_blank
    obtain ⟨l, b, r, hl, -, hb, hr, hcb⟩ := cuts_braced h level
      ((((pos.advance (nameText kind).toList).advance [' ']).advance
        (nameText label).toList).advance [' '])
    refine ⟨t :: u :: l :: (b ++ [r]), ⟨t, u, l, b, r, rfl, ht, hu, ?_, hl, hb, hr⟩, ?_⟩
    · show u.pos.line = t.pos.line
      rw [hup, hp, Position.line_advance, Position.line_advance, List.count_eq_zero.2 hline]
      rfl
    · have htail := hcu.append (hblank'.before hcb) fun rest _ => loose_blank _
      have hcut := hct.append (hblank.before htail) fun rest _ => loose_blank _
      have hcut := hcut.mono (Q := Loose) fun _ _ => trivial
      simpa using hcut

/-- A block without a label is its kind and statements in braces. -/
theorem writes_container {kind : String} {body : List Node} (hk : Writable kind)
    (h : ∀ m ∈ body, m.Writes Ends) (place : Position) : (container kind body place).Writes Loose := by
  intro level pos
  obtain ⟨t, l, b, r, ht, hl, hb, hr, hcut⟩ := cuts_body hk h level pos
  refine ⟨t :: l :: (b ++ [r]), ⟨t, l, b, r, rfl, ht, hl, hb, hr⟩, ?_⟩
  have hcut := hcut.mono (Q := Loose) fun _ _ => trivial
  simpa using hcut

/-- The names of the relations are identifiers. -/
theorem isIdentifier_name (r : Relation) : IsIdentifier r.name := by
  apply isIdentifier_of_isPlainName
  cases r <;> decide +kernel

/-- The relation of an arrow, if it has one, is a word and a blank in front of it. -/
theorem cuts_relation (relation : Option Relation) (pos : Position) :
    ∃ a, SpellsRelation relation a ∧ Cuts Anything pos
      (match relation with
        | some r => r.name ++ " "
        | none => "").toList a := by
  cases relation with
  | none => exact ⟨[], rfl, cuts_nil⟩
  | some r =>
    obtain ⟨t, ht, -, hct⟩ := cuts_word pos (isIdentifier_name r)
    refine ⟨[t], ⟨t, rfl, ht⟩, ?_⟩
    have hblank : Cuts Anything (pos.advance r.name.toList) [' '] [] := cuts_blank
    have hcut := hct.append hblank fun rest _ => loose_blank _
    simpa using hcut

/-- The target of an arrow, and its properties if there are any. -/
theorem cuts_properties {target : String} (hn : Writable target) {body : List Node}
    (h : ∀ m ∈ body, m.Writes Ends) (level : Nat) (pos : Position) :
    ∃ t a, t.Names target ∧
      ((body = [] ∧ a = []) ∨ ∃ l b r, a = l :: (b ++ [r]) ∧ l.kind = .lbrace ∧
        SpellsStatements Token.SameLine body b ∧ r.kind = .rbrace) ∧
      Cuts Loose pos ((nameText target).toList ++
        (if body.isEmpty then "" else " " ++ braced level (renderAll (level + 1) body)).toList)
          (t :: a) := by
  by_cases hbody : body = []
  · obtain ⟨t, ht, -, hct⟩ := cuts_name pos hn
    refine ⟨t, [], ht, .inl ⟨hbody, rfl⟩, ?_⟩
    simpa [hbody] using hct
  · obtain ⟨t, l, b, r, ht, hl, hb, hr, hcut⟩ := cuts_body hn h level pos
    refine ⟨t, l :: (b ++ [r]), ht, .inr ⟨l, b, r, rfl, hl, hb, hr⟩, ?_⟩
    have hcut := hcut.mono (Q := Loose) fun _ _ => trivial
    simpa [hbody] using hcut

/-- An arrow is written with blanks around its sign and with its properties in braces, if there are any. -/
theorem writes_arrow (relation : Option Relation) {source target : String} {body : List Node}
    (hs : Writable source) (ht : Writable target) (h : ∀ m ∈ body, m.Writes Ends)
    (place : Position) : (arrow relation source target body place).Writes Loose := by
  intro level pos
  obtain ⟨front, hf, hcf⟩ := cuts_relation relation pos
  generalize hfront : (match relation with
    | some r => r.name ++ " "
    | none => "") = text at hcf
  obtain ⟨s, hs, -, hcs⟩ := cuts_name (pos.advance text.toList) hs
  obtain ⟨sign, hsign, hca⟩ := cuts_sign
    ((pos.advance text.toList).advance (nameText source).toList) (k := .arrow) (.inr (.inl rfl))
  obtain ⟨t, a, ht, ha, hct⟩ := cuts_properties ht h level
    (((pos.advance text.toList).advance (nameText source).toList).advance [' ', '-', '>', ' '])
  refine ⟨front ++ s :: sign :: t :: a, ⟨front, s, sign, t, a, rfl, hf, hs, hsign, ht, ha⟩, ?_⟩
  have hmiddle := hcs.append (hca.before hct) fun rest _ => loose_blank _
  have hcut := hcf.before hmiddle
  subst hfront
  cases relation <;> simpa [Kind.symbol] using hcut

/-- A chain of conditions is written link by link. -/
theorem writes_control {branches : List (Branch Node)}
    (hc : ∀ b ∈ branches, ∀ c ∈ b.condition, c.WritesValue)
    (hb : ∀ b ∈ branches, ∀ m ∈ b.body, m.Writes Ends) : (control branches).Writes Loose := by
  intro level pos
  obtain ⟨ts, hs, hcut⟩ := cuts_branches (.inl rfl) (fun b h c hm => (hc b h c hm).writes) hb level pos
  refine ⟨ts, hs, ?_⟩
  rw [render]
  exact hcut.mono fun _ _ => trivial

/-- A comment is one token and ends with its line, which the end of the statement supplies. -/
theorem writes_comment {text : String} (h : Lexeme.IsComment text.toList) :
    (comment text).Writes Ends := by
  intro level pos
  obtain ⟨t, hk, ht, hcut⟩ := cuts_comment pos h
  exact ⟨[t], ⟨t, rfl, hk, ht⟩, hcut⟩

/-! ## 8. All trees -/

/-- A tree of the shape that the grammar asks for, with texts that can be written. -/
def Printable (n : Node) : Prop :=
  Everywhere (fun n => n.FitsHere ∧ n.WritableHere) n

/-- **The text of a tree is cut into tokens that spell it.** By induction on the tree, with one lemma for
each kind of node; what a node asks of its children depends on their place in it. -/
theorem Printable.writes {n : Node} (h : n.Printable) :
    (n.isValue = true → n.WritesValue) ∧ (n.isStatement = true → n.Writes Ends) := by
  induction h with
  | @intro n here below ih =>
    obtain ⟨fits, writable⟩ := here
    have value : ∀ m ∈ n.children, m.isValue = true → m.WritesValue := fun m hm => (ih m hm).1
    have values : (∀ m ∈ n.children, m.isValue = true) → ∀ m ∈ n.children, m.WritesValue :=
      fun hv m hm => value m hm (hv m hm)
    have body : (∀ m ∈ n.children, m.isStatement = true) → ∀ m ∈ n.children, m.Writes Ends :=
      fun hs m hm => (ih m hm).2 (hs m hm)
    -- Each node is a value, or a statement, or it is a directive and can be used as either; what has to
    -- be shown of it is one of these forms.
    have of_value : n.isStatement = false → n.WritesValue →
        (n.isValue = true → n.WritesValue) ∧ (n.isStatement = true → n.Writes Ends) :=
      fun hk h => ⟨fun _ => h, fun hs => absurd hs (by simp [hk])⟩
    have of_directive : n.WritesValue →
        (n.isValue = true → n.WritesValue) ∧ (n.isStatement = true → n.Writes Ends) :=
      fun h => ⟨fun _ => h, fun _ => h.writes.statement⟩
    have of_statement : n.isValue = false → n.Writes Loose →
        (n.isValue = true → n.WritesValue) ∧ (n.isStatement = true → n.Writes Ends) :=
      fun hk h => ⟨fun hv => absurd hv (by simp [hk]), fun _ => h.statement⟩
    cases n with
    | assign target v style =>
      exact of_statement rfl (writes_assign writable.1 writable.2
        (value v (by simp [children]) fits.1))
    | assignEach pairs =>
      refine of_statement rfl (writes_assignEach writable fun p hp => ?_)
      exact value p.2 (List.mem_map_of_mem hp) (fits.2 p hp)
    | destructure targets source =>
      exact of_statement rfl (writes_destructure writable
        (value source (by simp [children]) fits.2))
    | block kind label statements place =>
      exact of_statement rfl (writes_block writable.1 writable.2 (body fits.1) place)
    | container kind statements place =>
      exact of_statement rfl (writes_container writable (body fits.1) place)
    | arrow relation source target properties place =>
      exact of_statement rfl (writes_arrow relation writable.1 writable.2 (body fits) place)
    | map entries => exact of_value rfl (writesValue_entries (body fits.1) (.inl rfl))
    | combinedMap items => exact of_value rfl (writesValue_entries (body fits.1) (.inr rfl))
    | list items => exact of_value rfl (writesValue_list (values fits))
    | literal v => exact of_value rfl (writesValue_literal writable)
    | ident name => exact of_value rfl (writesValue_ident writable)
    | member left name =>
      exact of_value rfl (writesValue_member (value left (by simp [children]) fits.1) writable)
    | binary op left right =>
      exact of_value rfl (writesValue_binary op (value left (by simp [children]) fits.1)
        (value right (by simp [children]) fits.2.1))
    | unary op operand =>
      exact of_value rfl (writesValue_unary op (value operand (by simp [children]) fits.1))
    | ternary condition yes no =>
      exact of_value rfl (writesValue_ternary (value condition (by simp [children]) fits.1)
        (value yes (by simp [children]) fits.2.1) (value no (by simp [children]) fits.2.2.1))
    | group inner => exact of_value rfl (writesValue_group (value inner (by simp [children]) fits))
    | call name args place => exact of_value rfl (writesValue_call writable (values fits) place)
    | envRef name default => exact of_value rfl (writesValue_envRef writable)
    | inclusion target place =>
      exact of_directive (writesValue_inclusion (value target (by simp [children]) fits) place)
    | comment text => exact ⟨fun hv => absurd hv (by simp [isValue]), fun _ => writes_comment writable⟩
    | control branches =>
      have links := fun (b : Branch Node) (hb : b ∈ branches) => fits.2.of_mem hb
      have below : ∀ b ∈ branches, ∀ m ∈ b.condition.toList ++ b.body,
          m ∈ (control branches).children := fun b hb m hm => List.mem_flatMap.2 ⟨b, hb, hm⟩
      refine of_statement rfl (writes_control ?_ ?_)
      · intro b hb c hc
        exact value c (below b hb c (List.mem_append_left _ (Option.mem_toList.2 hc)))
          ((links b hb).1 c hc)
      · intro b hb m hm
        exact (ih m (below b hb m (List.mem_append_right _ hm))).2 ((links b hb).2 m hm)
    | pipeline steps place =>
      exact of_directive (writesValue_pipeline
        (body fun m hm => isStatement_of_isStep (fits m hm)) place)
    | exec cmd args dir place =>
      refine of_directive (writesValue_exec (value cmd (by simp [children]) fits.1) ?_ ?_ place)
      · exact fun m hm => value m (by simp [children, Option.mem_def.1 hm]) (fits.2.1 m hm)
      · exact fun m hm => value m (by simp [children, Option.mem_def.1 hm]) (fits.2.2 m hm)
    | extract source index => exact absurd fits id

end Node

end BlockConfig
