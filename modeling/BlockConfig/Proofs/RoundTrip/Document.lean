import BlockConfig.Proofs.Decimal.SourceText
import BlockConfig.Proofs.Eval.Positions
import BlockConfig.Proofs.Grammar.Parsed
import BlockConfig.Proofs.RoundTrip.Expression

/-!
Documents are read back from their text.

A document that was read consists of texts that were tokens. Almost all of them can be written as they
are, and the tree has the shape that the grammar asks for, so the written document is read as the same
tree up to positions (`parse_renderDocument`), and positions have no influence on what a document
evaluates to.

The condition for this is `Kept`. What `KeptHere` and `ApartHere` leave out are texts that may read as
something else once they are written:

* a flag that is called `null` is written as a string, and strings are no flags;
* a string or a name with a hole that is never closed does not end at its closing quote;
* the kind of a block with a label, if a line feed in one of its holes puts the label on another line;
* an infinite number is written as a word;
* the name of an environment reference that begins with what the reader drops, a blank character or
  one more `env.`;
* a flag that is called like a relation, right in front of an arrow without one.
-/

set_option autoImplicit false

namespace BlockConfig

open Text

namespace Node

/-! ## 1. What is kept -/

/-- A node whose texts mean the same when they are written. -/
def KeptHere : Node → Prop
  | assign target _ style => Writable target.name ∧ (style = .flag → target.name ≠ "null")
  | block kind label _ _ =>
    Writable kind ∧ ∀ l ∈ label, Writable l ∧ '\n' ∉ (nameText kind).toList
  | container kind _ _ => Writable kind
  | arrow _ source target _ _ => Writable source ∧ Writable target
  | member _ name => Writable name
  | literal (.str value _ none) => Lexeme.closesHoles 0 value.toList = true
  | literal (.float value) => (Decimal.decode value).isSome = true
  | envRef name _ =>
    (∀ c ∈ name.toList.head?, isBlank c = false) ∧
      dropPrefix? "env.".toList name.toList = none
  | _ => True

/-- A document whose nodes mean the same when they are written. -/
structure Kept (ns : List Node) : Prop where
  apart : Apart ns
  nodes : ∀ n ∈ ns, Everywhere (fun n => n.ApartHere ∧ n.KeptHere) n

/-! ## 2. Texts that were tokens -/

section Tokens

variable {name text : String} {v : Literal}

theorem isIdentifier_of_identFrom (h : IdentFrom Token.Lawful name) : IsIdentifier name := by
  obtain ⟨t, ht, hk, rfl⟩ := h
  unfold Token.Lawful at ht
  rw [hk] at ht
  exact ht

/-- An identifier other than `null` is written bare. -/
theorem isPlainName_of_isIdentifier (h : IsIdentifier name) (hnull : name ≠ "null") :
    isPlainName name.toList = true := by
  obtain ⟨c, cs, hname, hc, hcs, hkind⟩ := h
  rw [← hname, wordKind_eq_ident_iff] at hkind
  obtain ⟨htrue, hfalse, hif, helseif, helse⟩ := hkind
  have hall : (c :: cs).all Lexeme.isNameRest = true := by
    rw [List.all_eq_true]
    intro d hd
    rcases List.mem_cons.1 hd with rfl | hd
    · exact Lexeme.isNameRest_of_isNameStart hc
    · exact hcs d hd
  have hword : ["true", "false", "null", "IF", "ELSEIF", "ELSE"].contains (String.ofList (c :: cs)) =
      false := by
    rw [← hname, String.ofList_toList]
    simp [htrue, hfalse, hnull, hif, helseif, helse]
  rw [hname]
  unfold isPlainName
  dsimp only
  rw [hc, hall, hword]
  rfl

theorem isPlainName_of_identFrom (h : IdentFrom Token.Lawful name) (hnull : name ≠ "null") :
    isPlainName name.toList = true :=
  isPlainName_of_isIdentifier (isIdentifier_of_identFrom h) hnull

/-- A value that was a token is written as one. -/
theorem writable_of_means {t : Token} (ht : t.Lawful) (hm : t.Means v)
    (hk : (literal v).KeptHere) : v.Writable := by
  unfold Token.Lawful at ht
  rcases hm with ⟨hkind, hv⟩ | ⟨hkind, rfl⟩ | ⟨hkind, rfl⟩ | ⟨-, rfl⟩ | ⟨-, -, rfl⟩
  · rw [hkind] at ht
    cases v with
    | int i => exact Decimal.nonneg_of_number ht hv
    | float x =>
      obtain ⟨b, hb⟩ := Option.isSome_iff_exists.1 hk
      exact Decimal.numberLiteral?_sourceText hb (Decimal.negative_of_number ht hv hb)
    | str value quote tag =>
      unfold Rule.numberLiteral? at hv
      dsimp only at hv
      split at hv
      · cases hv
      · obtain ⟨x, -, hx⟩ := Option.map_eq_some_iff.1 hv
        cases hx
    | bool b => trivial
    | null => trivial
  · rw [hkind] at ht
    obtain ⟨q, hq, hquote⟩ := ht
    rw [hq]
    exact ⟨hquote, hk⟩
  · rw [hkind] at ht
    obtain ⟨tag, htag, hfits, hname⟩ := ht
    rw [htag]
    exact ⟨rfl, hfits, hname⟩
  · trivial
  · trivial

/-- A node whose texts were tokens and that is kept can be written. -/
theorem writableHere_of_from {n : Node} (hf : n.FromHere Token.Lawful) (hk : n.KeptHere) :
    n.WritableHere := by
  cases n with
  | assign target value style =>
    refine ⟨hk.1, fun hflag => ?_⟩
    exact isPlainName_of_identFrom (hf.2 hflag) (hk.2 hflag)
  | assignEach pairs => exact fun p hp => isIdentifier_of_identFrom (hf p hp)
  | destructure targets source => exact fun t ht => isIdentifier_of_identFrom (hf t ht)
  | block kind label body pos => exact hk
  | container kind body pos => exact hk
  | arrow relation source target body pos => exact hk
  | literal v =>
    rcases hf with rfl | ⟨t, ht, hm⟩
    · trivial
    · exact writable_of_means ht hm hk
  | ident name => exact isPlainName_of_identFrom hf.1 hf.2
  | call name args pos => exact isPlainName_of_identFrom hf.1 hf.2
  | member left name => exact hk
  | envRef name default =>
    obtain ⟨t, ht, hkind, href⟩ := hf
    unfold Token.Lawful at ht
    rw [hkind] at ht
    obtain ⟨text, hfits, hliteral⟩ := ht
    rw [hliteral] at href
    exact isReference_of_fits hfits href hk.1 hk.2
  | comment text =>
    obtain ⟨t, ht, hkind, rfl⟩ := hf
    unfold Token.Lawful at ht
    rw [hkind] at ht
    exact ht
  | _ => trivial

end Tokens

/-! ## 3. Documents -/

/-- The text of a document: its statements, each on a line of its own. -/
theorem toList_renderDocument {ns : List Node} (hne : ns ≠ []) :
    (renderDocument ns).toList = linesText 0 ns := by
  have hjoin : ∀ lines : List String, lines ≠ [] → (join "\n" lines).toList ++ ['\n'] =
      lines.flatMap fun line => line.toList ++ ['\n'] := by
    intro lines hlines
    induction lines with
    | nil => exact absurd rfl hlines
    | cons line lines ih =>
      cases lines with
      | nil => simp [join]
      | cons next lines =>
        rw [toList_join_cons, List.flatMap_cons, ← ih (List.cons_ne_nil _ _)]
        simp
  have hlines : renderAll 0 ns ≠ [] := by
    intro hnil
    have hempty := renderAll_isEmpty 0 ns
    rw [hnil] at hempty
    exact hne (List.isEmpty_iff.1 hempty.symm)
  unfold renderDocument linesText
  rw [String.toList_append]
  exact hjoin _ hlines

/-- The text of a document is cut into tokens that spell its statements. -/
theorem cuts_renderDocument {ns : List Node} (h : ∀ n ∈ ns, n.Writes Ends) :
    ∃ ts, SpellsStatements Token.SameLine ns ts ∧
      Cuts Anything .start (renderDocument ns).toList ts := by
  by_cases hne : ns = []
  · subst hne
    exact ⟨[], rfl, cuts_lineFeed⟩
  · rw [toList_renderDocument hne]
    exact cuts_lines h 0 .start

/-- **A document that is kept is read back from its text,** and what is read evaluates like it. What a text
was read to is well shaped already, so `Kept` asks only for what does not follow from that. -/
theorem parse_renderDocument {source file : String} {ns : List Node}
    (h : parse source file = .ok ns) (hk : Kept ns) (file' : String) :
    ∃ ns', parse (renderDocument ns) file' = .ok ns' ∧ unplacedAll ns' = unplacedAll ns ∧
      ∀ src, (Engine.evalDocument src ns).Equivalent (Engine.evalDocument src ns') := by
  obtain ⟨hshaped, hkind⟩ := shaped_of_parse h
  -- What was read is well shaped. With what is kept of it, every node can be written, and every node
  -- can be read back.
  have hprintable : ∀ n ∈ ns, n.Printable := by
    intro n hn
    apply ((hshaped n hn).and (hk.nodes n hn)).mono
    rintro m ⟨⟨hfits, hfrom⟩, -, hkept⟩
    exact ⟨hfits, writableHere_of_from hfrom hkept⟩
  have hreadable : ∀ n ∈ ns, n.isStatement = true ∧ n.Readable := by
    intro n hn
    refine ⟨hkind n hn, ?_⟩
    apply ((hshaped n hn).and (hk.nodes n hn)).mono
    rintro m ⟨⟨hfits, -⟩, hapart, -⟩
    exact ⟨hfits, hapart⟩
  obtain ⟨ts, hspells, hcut⟩ := cuts_renderDocument fun n hn =>
    (hprintable n hn).writes.2 (hkind n hn)
  obtain ⟨last, hts⟩ := hcut.list (anything [])
  have hlength : (ts ++ [Token.endOfInput last]).length = ts.length + 1 := by
    rw [List.length_append]
    rfl
  have hbudget : 10 * ts.length + 10 ≤ Rule.budget (ts ++ [Token.endOfInput last]) := by
    rw [Rule.budget, hlength]
    omega
  obtain ⟨ns', hns', hgives⟩ := reads_document hk.apart hreadable 0 (.endOfInput last) hspells rfl
    hbudget
  refine ⟨ns', Rule.readText_eq hts hgives file', hns', ?_⟩
  exact Engine.evalDocument_equivalent hns'.symm

/-- A document with a float and, in a block, a reference with a default. -/
def sampleSource : String :=
  "a = 1.5\nb \x7bx = $\x7bHOME:none\x7d\x7d"

/-- Its tokens. -/
def sampleTokens : List Token :=
  [⟨.ident, "a", ⟨1, 1⟩, none, none⟩, ⟨.assign, "=", ⟨1, 3⟩, none, none⟩,
    ⟨.number, "1.5", ⟨1, 5⟩, none, none⟩, ⟨.ident, "b", ⟨2, 1⟩, none, none⟩,
    ⟨.lbrace, "\x7b", ⟨2, 3⟩, none, none⟩, ⟨.ident, "x", ⟨2, 4⟩, none, none⟩,
    ⟨.assign, "=", ⟨2, 6⟩, none, none⟩, ⟨.envRef, "HOME:none", ⟨2, 8⟩, none, none⟩,
    ⟨.rbrace, "\x7d", ⟨2, 20⟩, none, none⟩, .endOfInput ⟨2, 21⟩]

/-- Its nodes. -/
def sampleDocument : List Node :=
  [.assign ⟨"a", ⟨1, 1⟩⟩ (.literal (.float 1.5)) .equals,
    .block "b" none [.assign ⟨"x", ⟨2, 4⟩⟩ (.envRef "HOME" (some "none")) .equals] ⟨2, 1⟩]

/-- A document with a float and a block, written and read back. -/
theorem parse_renderDocument_sampleDocument :
    (parse sampleSource "sample" = .ok sampleDocument ∧ Kept sampleDocument) ∧
      ∃ ns', parse (renderDocument sampleDocument) "rendered" = .ok ns' ∧
        unplacedAll ns' = unplacedAll sampleDocument ∧
        ∀ src, (Engine.evalDocument src sampleDocument).Equivalent (Engine.evalDocument src ns') := by
  have htokens : Token.list sampleSource.toList = .ok sampleTokens := by
    -- One step for each token.
    refine Token.listFrom_step rfl rfl rfl ?_
    refine Token.listFrom_step rfl rfl rfl ?_
    refine Token.listFrom_step rfl rfl rfl ?_
    refine Token.listFrom_step rfl rfl rfl ?_
    refine Token.listFrom_step rfl rfl rfl ?_
    refine Token.listFrom_step rfl rfl rfl ?_
    refine Token.listFrom_step rfl rfl rfl ?_
    refine Token.listFrom_step rfl rfl rfl ?_
    refine Token.listFrom_step rfl rfl rfl ?_
    exact Token.listFrom_nil _
  have hgives : (Rule.document (Rule.budget sampleTokens)).Gives ⟨0, sampleTokens⟩ sampleDocument
      ⟨2, [.endOfInput ⟨2, 21⟩]⟩ := rfl
  have hparse := Rule.readText_eq htokens hgives "sample"
  have hkept : Kept sampleDocument := by
    refine ⟨⟨by decide, trivial⟩, ?_⟩
    have leaf : ∀ {p : Node → Prop} {n : Node}, p n → n.children = [] → Everywhere p n :=
      fun h hn => .intro h (by simp [hn])
    refine List.forall_mem_cons.2 ⟨?_, List.forall_mem_singleton.2 ?_⟩
    · refine .intro ⟨trivial, rfl, nofun⟩ (List.forall_mem_singleton.2 (leaf ⟨trivial, rfl⟩ rfl))
    · refine .intro ⟨trivial, rfl, nofun⟩ (List.forall_mem_singleton.2 ?_)
      refine .intro ⟨trivial, rfl, nofun⟩ (List.forall_mem_singleton.2 ?_)
      refine leaf ⟨trivial, fun c hc => ?_, rfl⟩ rfl
      obtain rfl := Option.some.inj hc
      rfl
  exact ⟨⟨hparse, hkept⟩, parse_renderDocument hparse hkept "rendered"⟩

/-- A flag that is called `null` is not kept: its text is no document. -/
theorem parse_renderDocument_null :
    parse "null" "sample" = .ok [.assign ⟨"null", .start⟩ (.literal (.bool true)) .flag] ∧
      ∀ ns, parse (renderDocument [.assign ⟨"null", .start⟩ (.literal (.bool true)) .flag])
        "rendered" ≠ .ok ns := by
  have hword : Token.list "null".toList =
      .ok [⟨.ident, "null", .start, none, none⟩, .endOfInput ⟨1, 5⟩] := by
    refine Token.listFrom_step rfl rfl rfl ?_
    exact Token.listFrom_nil _
  have hflag : (Rule.document (Rule.budget [⟨.ident, "null", .start, none, none⟩,
      .endOfInput ⟨1, 5⟩])).Gives ⟨0, [⟨.ident, "null", .start, none, none⟩, .endOfInput ⟨1, 5⟩]⟩
      [.assign ⟨"null", .start⟩ (.literal (.bool true)) .flag] ⟨1, [.endOfInput ⟨1, 5⟩]⟩ := rfl
  refine ⟨Rule.readText_eq hword hflag "sample", fun ns h => ?_⟩
  -- The name is written as a string, and no statement is a string alone.
  have hquoted : Cuts Anything .start (quoted '"' "null").toList
      [⟨.str, "null", .start, none, some '"'⟩] := (cuts_quoted .start rfl rfl).2
  obtain ⟨last, hstring⟩ := (hquoted.append cuts_lineFeed fun _ _ => anything _).list (anything [])
  have htokens : Token.tokenize (renderDocument
      [.assign ⟨"null", .start⟩ (.literal (.bool true)) .flag]) "rendered" =
      .ok [⟨.str, "null", .start, none, some '"'⟩, .endOfInput last] := by
    unfold Token.tokenize
    have htext : (renderDocument [.assign ⟨"null", .start⟩ (.literal (.bool true)) .flag]).toList =
      (quoted '"' "null").toList ++ ['\n'] := rfl
    rw [htext, hstring]
    rfl
  unfold parse Rule.readText at h
  rw [htokens] at h
  cases h

end Node

end BlockConfig
