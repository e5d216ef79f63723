/-
  CorpusGraph/Citation.lean --- the citation grammars, and the form a citation is stored in.

  Source: `citation_patterns` and `normalize_citation` of
  experiments/pdf-corpus-graph/demo/db/02-extract.sql.

  Norms are compared with what a citation says: the numbers in it, and the family of a
  control.  Wherever letters stay between the numbers the two agree; the norm of a public
  law is its digits alone, and what says where the one number ends is gone.
-/
import SupabaseLab.Library.Replace
import SupabaseLab.Library.Separated

set_option autoImplicit false

namespace SupabaseLab.CorpusGraph

open Library

/-! ## Patterns -/

inductive Kind where
  | nistControl
  | usc
  | cfr
  | publaw
  | abn
  /-- The kinds of other extractors. -/
  | other (name : String)
  deriving DecidableEq

/-- `[A-Z]` -/
def isUpperLetter (c : Char) : Bool := decide ('A' ≤ c) && decide (c ≤ 'Z')

/-- `[0-9]` -/
def isDigit (c : Char) : Bool := decide ('0' ≤ c) && decide (c ≤ '9')

/-- `\s` -/
def isSpace (c : Char) : Bool :=
  let n := c.toNat
  decide (9 ≤ n ∧ n ≤ 13) || decide (n ∈ [32, 133, 160, 5760, 8232, 8233, 8239, 8287, 12288]) ||
    decide (8192 ≤ n ∧ n ≤ 8202)

structure CitationPattern where
  kind : Kind
  pattern : Regex

/-- `\y[A-Z]{2}-[0-9]{1,2}\y`; `\y` is the boundary of a word. -/
def nistPattern : Regex :=
  .seqs [.boundary, .times 2 (.char isUpperLetter), .text "-", .between 1 2 (.char isDigit), .boundary]

/-- `\y[0-9]{1,2} U\.?\s?S\.?\s?C\.? [0-9]+` -/
def uscPattern : Regex :=
  .seqs [.boundary, .between 1 2 (.char isDigit), .text " U", .opt (.text "."), .opt (.char isSpace),
    .text "S", .opt (.text "."), .opt (.char isSpace), .text "C", .opt (.text "."), .text " ",
    .plus (.char isDigit)]

/-- `\y[0-9]{1,2} CFR [0-9]+` -/
def cfrPattern : Regex :=
  .seqs [.boundary, .between 1 2 (.char isDigit), .text " CFR ", .plus (.char isDigit)]

/-- `Public Law [0-9]{2,3}.[0-9]{1,4}` -/
def publawPattern : Regex :=
  .seqs [.text "Public Law ", .between 2 3 (.char isDigit), .char fun _ => true,
    .between 1 4 (.char isDigit)]

def citationPatterns : List CitationPattern :=
  [⟨.nistControl, nistPattern⟩, ⟨.usc, uscPattern⟩, ⟨.cfr, cfrPattern⟩, ⟨.publaw, publawPattern⟩]

/-- The word is what the expression takes at some place of some text. -/
def Matched (r : Regex) (raw : List Char) : Prop :=
  ∃ before after, (⟨raw.reverse ++ before, after⟩ : Place) ∈ r.ends ⟨before, raw ++ after⟩

/-! ## Norms -/

/-- `upper` -/
def upper (raw : List Char) : List Char := raw.map Char.toUpper

/-- `trim`: the spaces at both ends. -/
def trim (raw : List Char) : List Char := (raw.dropWhile (· = ' ')).rdropWhile (· = ' ')

/-- `[0-9A-Z]` -/
def isAlnum (c : Char) : Bool := isDigit c || isUpperLetter c

def normalizeCitation (kind : Kind) (raw : List Char) : List Char :=
  match kind with
  | .usc => (upper raw).filter isAlnum
  | .cfr => (upper raw).filter isAlnum
  | .publaw => (upper raw).filter isDigit
  | .abn => raw.filter isDigit
  | _ => upper (trim raw)

/-! ## What a citation says -/

/-- The numbers of a text, as they are written. -/
def numerals (raw : List Char) : List (List Char) :=
  (raw.splitOnP fun c => !isDigit c).filter fun w => w ≠ []

/-- The value of a numeral. -/
def numeralValue (w : List Char) : Nat := w.foldl (fun n c => 10 * n + (c.toNat - 48)) 0

/-- The family of a control. -/
def family (kind : Kind) (raw : List Char) : List Char := if kind = .nistControl then raw.take 2 else []

/-- A citation by its numbers as they are written. -/
def written (kind : Kind) (raw : List Char) : List Char × List (List Char) :=
  (family kind raw, numerals raw)

/-- A citation by the values of its numbers. -/
def meant (kind : Kind) (raw : List Char) : List Char × List Nat :=
  (family kind raw, (numerals raw).map numeralValue)

/-- Two public laws of the same digits, cut into numbers at different places. -/
def Recut (kind : Kind) (r s : List Char) : Prop :=
  kind = .publaw ∧ numerals r ≠ numerals s ∧ (numerals r).flatten = (numerals s).flatten

/-- The same numbers, with zeros before them in one of the two. -/
def ZeroPadded (kind : Kind) (r s : List Char) : Prop :=
  meant kind r = meant kind s ∧ written kind r ≠ written kind s

instance (kind : Kind) (r s : List Char) : Decidable (Recut kind r s) :=
  inferInstanceAs (Decidable (_ ∧ _ ∧ _))

section Lemmas

variable {r s w t d d' : List Char} {c : Char} {kind : Kind} {p : Regex}

/-! ### Characters -/

theorem isDigit_iff : isDigit c = true ↔ 48 ≤ c.toNat ∧ c.toNat ≤ 57 := by
  rw [isDigit, Bool.and_eq_true, decide_eq_true_iff, decide_eq_true_iff]
  rfl

theorem isUpperLetter_iff : isUpperLetter c = true ↔ 65 ≤ c.toNat ∧ c.toNat ≤ 90 := by
  rw [isUpperLetter, Bool.and_eq_true, decide_eq_true_iff, decide_eq_true_iff]
  rfl

theorem isSpace_iff : isSpace c = true ↔ (9 ≤ c.toNat ∧ c.toNat ≤ 13) ∨
    c.toNat ∈ [32, 133, 160, 5760, 8232, 8233, 8239, 8287, 12288] ∨
      (8192 ≤ c.toNat ∧ c.toNat ≤ 8202) := by
  rw [isSpace]
  simp only [Bool.or_eq_true, decide_eq_true_iff, or_assoc]

/-- Only small letters change. -/
theorem toUpper_of_not_lower (h : ¬ (97 ≤ c.toNat ∧ c.toNat ≤ 122)) : c.toUpper = c := by
  rw [Char.toUpper]
  exact dif_neg fun hlower => h ⟨hlower.1, hlower.2⟩

theorem toUpper_digit (h : isDigit c = true) : c.toUpper = c :=
  toUpper_of_not_lower fun hlower => by
    have := isDigit_iff.mp h
    omega

theorem toUpper_upperLetter (h : isUpperLetter c = true) : c.toUpper = c :=
  toUpper_of_not_lower fun hlower => by
    have := isUpperLetter_iff.mp h
    omega

theorem isAlnum_toUpper_space (h : isSpace c = true) : isAlnum c.toUpper = false := by
  have hnat := isSpace_iff.mp h
  have hsame : c.toUpper = c := toUpper_of_not_lower fun hlower => by
    simp only [List.mem_cons, List.not_mem_nil, or_false] at hnat
    omega
  rw [hsame, isAlnum, Bool.or_eq_false_iff, ← Bool.not_eq_true, ← Bool.not_eq_true, isDigit_iff,
    isUpperLetter_iff]
  simp only [List.mem_cons, List.not_mem_nil, or_false] at hnat
  omega

theorem not_digit_of_space (h : isSpace c = true) : isDigit c = false := by
  rw [← Bool.not_eq_true, isDigit_iff]
  have hnat := isSpace_iff.mp h
  simp only [List.mem_cons, List.not_mem_nil, or_false] at hnat
  omega

/-! ### Numerals -/

theorem numerals_cons_skip (hc : isDigit c = false) : numerals (c :: t) = numerals t := by
  rw [numerals, List.splitOnP_cons_eq_if_modifyHead, if_pos (by rw [hc]; rfl), List.filter_cons,
    if_neg (by decide)]
  rfl

theorem numerals_skip (hw : ∀ c ∈ w, isDigit c = false) : numerals (w ++ t) = numerals t := by
  induction w with
  | nil => rfl
  | cons c w ih =>
    rw [List.cons_append, numerals_cons_skip (hw c List.mem_cons_self)]
    exact ih fun d hd => hw d (List.mem_cons_of_mem c hd)

theorem numerals_digits (hd : ∀ c ∈ d, isDigit c = true) (hne : d ≠ []) : numerals d = [d] := by
  rw [numerals, List.splitOnP_eq_singleton fun c hc => by rw [hd c hc]; rfl, List.filter_cons,
    if_pos (decide_eq_true hne)]
  rfl

/-- A number ends where its digits do. -/
theorem numerals_run (hd : ∀ c ∈ d, isDigit c = true) (hne : d ≠ []) (hc : isDigit c = false) :
    numerals (d ++ c :: t) = d :: numerals t := by
  rw [numerals, List.splitOnP_append_cons_of_forall_mem (fun c hc => by rw [hd c hc]; rfl) c
    (by rw [hc]; rfl), List.filter_cons, if_pos (decide_eq_true hne)]
  rfl

theorem flatten_splitOnP {α : Type} (p : α → Bool) (l : List α) :
    (l.splitOnP p).flatten = l.filter fun x => !p x := by
  induction l with
  | nil => rfl
  | cons x l ih =>
    rw [List.splitOnP_cons_eq_if_modifyHead, List.filter_cons]
    cases hx : p x with
    | true => exact ih
    | false =>
      rw [if_neg Bool.false_ne_true, Bool.not_false, if_pos rfl, ← ih]
      obtain ⟨hd, tl, htl⟩ := List.exists_cons_of_ne_nil (List.splitOnP_ne_nil p l)
      rw [htl]
      rfl

theorem flatten_filter_ne_nil {α : Type} [DecidableEq α] (ls : List (List α)) :
    (ls.filter fun w => w ≠ []).flatten = ls.flatten := by
  induction ls with
  | nil => rfl
  | cons w ls ih =>
    rw [List.filter_cons]
    split
    · rw [List.flatten_cons, List.flatten_cons, ih]
    · rename_i hw
      rw [decide_eq_true_iff, not_not] at hw
      rw [ih, hw, List.flatten_cons, List.nil_append]

theorem flatten_numerals (t : List Char) : (numerals t).flatten = t.filter isDigit := by
  rw [numerals, flatten_filter_ne_nil, flatten_splitOnP]
  refine List.filter_congr fun c _ => ?_
  rw [Bool.not_not]

/-- The digits at the front of a text end where its first other letter stands. -/
theorem digits_append_cons_inj {e : List Char} (hd : ∀ c ∈ d, isDigit c = true)
    (he : ∀ c ∈ e, isDigit c = true) (hc : isDigit c = false) :
    d ++ c :: t = e ++ c :: w ↔ d = e ∧ t = w := by
  have hout : ∀ {x : List Char}, (∀ c ∈ x, isDigit c = true) → c ∉ x := fun hx hmem =>
    Bool.false_ne_true (hc.symm.trans (hx c hmem))
  constructor
  · intro heq
    exact append_cons_inj (hout hd) (hout he) heq
  · rintro ⟨rfl, rfl⟩
    rfl

/-! ### What the patterns match -/

/-- A text without digits, of which the norm keeps these letters. -/
structure Keeps (letters mid : List Char) : Prop where
  no_digit : ∀ c ∈ mid, isDigit c = false
  norm : (upper mid).filter isAlnum = letters

theorem Keeps.append {a b x y : List Char} (hx : Keeps a x) (hy : Keeps b y) :
    Keeps (a ++ b) (x ++ y) where
  no_digit := List.forall_mem_append.mpr ⟨hx.no_digit, hy.no_digit⟩
  norm := by
    rw [upper, List.map_append, List.filter_append]
    exact congrArg₂ (· ++ ·) hx.norm hy.norm

/-- A title and a section, with letters between them that the norm keeps. -/
structure Spelled (letters raw title section_ : List Char) : Prop where
  title_digits : ∀ c ∈ title, isDigit c = true
  title_ne : title ≠ []
  section_digits : ∀ c ∈ section_, isDigit c = true
  section_ne : section_ ≠ []
  between : ∃ mid, raw = title ++ mid ++ section_ ∧ mid ≠ [] ∧ Keeps letters mid

theorem upper_digits (hd : ∀ c ∈ d, isDigit c = true) : upper d = d :=
  (List.map_congr_left fun c hc => toUpper_digit (hd c hc)).trans (List.map_id d)

theorem Spelled.norm {letters raw title section_ : List Char} (h : Spelled letters raw title section_) :
    (upper raw).filter isAlnum = title ++ letters ++ section_ := by
  have hdigits : ∀ {d}, (∀ c ∈ d, isDigit c = true) → (upper d).filter isAlnum = d := by
    intro d hd
    rw [upper_digits hd]
    exact List.filter_eq_self.mpr fun c hc => by rw [isAlnum, hd c hc]; rfl
  obtain ⟨mid, rfl, -, hmid⟩ := h.between
  rw [upper, List.map_append, List.map_append, List.filter_append, List.filter_append]
  exact congrArg₂ (· ++ ·) (congrArg₂ (· ++ ·) (hdigits h.title_digits) hmid.norm)
    (hdigits h.section_digits)

theorem Spelled.numerals {letters raw title section_ : List Char}
    (h : Spelled letters raw title section_) : numerals raw = [title, section_] := by
  obtain ⟨mid, rfl, hne, hkeeps⟩ := h.between
  obtain ⟨c, mid, rfl⟩ := List.exists_cons_of_ne_nil hne
  obtain ⟨hc, hmid⟩ := List.forall_mem_cons.mp hkeeps.no_digit
  rw [List.append_assoc, List.cons_append, numerals_run h.title_digits h.title_ne hc,
    numerals_skip hmid, numerals_digits h.section_digits h.section_ne]

/-- A dot or a space between the letters of an abbreviation. -/
def isMark (c : Char) : Bool := decide (c = '.') || isSpace c

theorem mark_spec (h : isMark c = true) : isDigit c = false ∧ isAlnum c.toUpper = false := by
  rcases Bool.or_eq_true _ _ ▸ h with hdot | hspace
  · rw [of_decide_eq_true hdot]
    exact ⟨rfl, rfl⟩
  · exact ⟨not_digit_of_space hspace, isAlnum_toUpper_space hspace⟩

/-- Dots and spaces go from the norm. -/
theorem keeps_marks {m : List Char} (hm : ∀ c ∈ m, isMark c = true) : Keeps [] m where
  no_digit c hc := (mark_spec (hm c hc)).1
  norm := by
    refine List.filter_eq_nil_iff.mpr fun c hc => ?_
    obtain ⟨d, hd, rfl⟩ := List.mem_map.mp hc
    rw [(mark_spec (hm d hd)).2]
    exact Bool.false_ne_true

/-- A letter of an abbreviation stays. -/
theorem keeps_upperLetter (hc : isUpperLetter c = true) : Keeps [c] [c] where
  no_digit := by
    refine List.forall_mem_singleton.mpr ?_
    rw [← Bool.not_eq_true, isDigit_iff]
    have := isUpperLetter_iff.mp hc
    omega
  norm := by
    show [c.toUpper].filter isAlnum = [c]
    rw [toUpper_upperLetter hc, List.filter_singleton, isAlnum, hc, Bool.or_true]
    rfl

theorem over_of_dot {p q : Place} (h : q ∈ (Regex.opt (.text ".")).ends p) :
    ∃ w, (∀ c ∈ w, isMark c = true) ∧ p.Over w q := by
  rcases mem_opt.mp h with h | rfl
  · exact ⟨['.'], List.forall_mem_singleton.mpr rfl, mem_text.mp h⟩
  · exact ⟨[], List.forall_mem_nil _, .nil q⟩

theorem over_of_space {p q : Place} (h : q ∈ (Regex.opt (.char isSpace)).ends p) :
    ∃ w, (∀ c ∈ w, isMark c = true) ∧ p.Over w q := by
  rcases mem_opt.mp h with h | rfl
  · obtain ⟨c, hc, hover⟩ := mem_char.mp h
    refine ⟨[c], List.forall_mem_singleton.mpr ?_, hover⟩
    rw [isMark, hc, Bool.or_true]
  · exact ⟨[], List.forall_mem_nil _, .nil q⟩

/-- What is matched is the words that the parts of the expression take. -/
theorem matched_over (h : Matched p r) : ∃ a b, a.Over r b ∧ b ∈ p.ends a := by
  obtain ⟨before, after, h⟩ := h
  exact ⟨_, _, ⟨rfl, rfl⟩, h⟩

theorem spelled_usc (h : Matched uscPattern r) : ∃ t s, Spelled ['U', 'S', 'C'] r t s := by
  obtain ⟨p0, q, hover, h⟩ := matched_over h
  obtain ⟨p1, h1, h⟩ := mem_seqs_cons.mp h
  obtain ⟨p2, h2, h⟩ := mem_seqs_cons.mp h
  obtain ⟨p3, h3, h⟩ := mem_seqs_cons.mp h
  obtain ⟨p4, h4, h⟩ := mem_seqs_cons.mp h
  obtain ⟨p5, h5, h⟩ := mem_seqs_cons.mp h
  obtain ⟨p6, h6, h⟩ := mem_seqs_cons.mp h
  obtain ⟨p7, h7, h⟩ := mem_seqs_cons.mp h
  obtain ⟨p8, h8, h⟩ := mem_seqs_cons.mp h
  obtain ⟨p9, h9, h⟩ := mem_seqs_cons.mp h
  obtain ⟨p10, h10, h⟩ := mem_seqs_cons.mp h
  obtain ⟨p11, h11, h12⟩ := mem_seqs_cons.mp h
  cases eq_of_mem_check h1
  obtain ⟨title, htitle, hlen, o2⟩ := over_of_mem_between h2
  obtain ⟨m4, hm4, o4⟩ := over_of_dot h4
  obtain ⟨m5, hm5, o5⟩ := over_of_space h5
  obtain ⟨m7, hm7, o7⟩ := over_of_dot h7
  obtain ⟨m8, hm8, o8⟩ := over_of_space h8
  obtain ⟨m10, hm10, o10⟩ := over_of_dot h10
  obtain ⟨sec, hsec, hne, o12⟩ := over_of_mem_plus h12
  have hwords := o2.trans <| (mem_text.mp h3).trans <| o4.trans <| o5.trans <| (mem_text.mp h6).trans <|
    o7.trans <| o8.trans <| (mem_text.mp h9).trans <| o10.trans <| (mem_text.mp h11).trans o12
  have heq := hover.unique hwords
  have hblank : Keeps [] [' '] := keeps_marks (List.forall_mem_singleton.mpr rfl)
  have hkeeps : Keeps ['U', 'S', 'C']
      ([' '] ++ (['U'] ++ (m4 ++ (m5 ++ (['S'] ++ (m7 ++ (m8 ++ (['C'] ++ (m10 ++ [' ']))))))))) :=
    hblank.append <| (keeps_upperLetter rfl).append <| (keeps_marks hm4).append <|
      (keeps_marks hm5).append <| (keeps_upperLetter rfl).append <| (keeps_marks hm7).append <|
      (keeps_marks hm8).append <| (keeps_upperLetter rfl).append <| (keeps_marks hm10).append hblank
  refine ⟨title, sec, htitle, fun hnil => ?_, hsec, hne, _, ?_,
    List.append_ne_nil_of_left_ne_nil (List.cons_ne_nil _ _) _, hkeeps⟩
  · rw [hnil] at hlen
    exact absurd hlen (by decide)
  · rw [heq]
    simp only [List.append_assoc]
    rfl

theorem spelled_cfr (h : Matched cfrPattern r) : ∃ t s, Spelled ['C', 'F', 'R'] r t s := by
  obtain ⟨p0, q, hover, h⟩ := matched_over h
  obtain ⟨p1, h1, h⟩ := mem_seqs_cons.mp h
  obtain ⟨p2, h2, h⟩ := mem_seqs_cons.mp h
  obtain ⟨p3, h3, h4⟩ := mem_seqs_cons.mp h
  cases eq_of_mem_check h1
  obtain ⟨title, htitle, hlen, o2⟩ := over_of_mem_between h2
  obtain ⟨sec, hsec, hne, o4⟩ := over_of_mem_plus h4
  have heq := hover.unique (o2.trans ((mem_text.mp h3).trans o4))
  have hblank : Keeps [] [' '] := keeps_marks (List.forall_mem_singleton.mpr rfl)
  have hkeeps : Keeps ['C', 'F', 'R'] ([' '] ++ (['C'] ++ (['F'] ++ (['R'] ++ [' '])))) :=
    hblank.append <| (keeps_upperLetter rfl).append <| (keeps_upperLetter rfl).append <|
      (keeps_upperLetter rfl).append hblank
  refine ⟨title, sec, htitle, fun hnil => ?_, hsec, hne, _, ?_,
    List.append_ne_nil_of_left_ne_nil (List.cons_ne_nil _ _) _, hkeeps⟩
  · rw [hnil] at hlen
    exact absurd hlen (by decide)
  · rw [heq, List.append_assoc]
    rfl

/-- A control is a family and a number, and is its own norm. -/
theorem matched_nist (h : Matched nistPattern r) : ∃ f d, r = f ++ '-' :: d ∧
    (∀ c ∈ f, isUpperLetter c = true) ∧ f.length = 2 ∧ (∀ c ∈ d, isDigit c = true) ∧ d ≠ [] := by
  obtain ⟨p0, q, hover, h⟩ := matched_over h
  obtain ⟨p1, h1, h⟩ := mem_seqs_cons.mp h
  obtain ⟨p2, h2, h⟩ := mem_seqs_cons.mp h
  obtain ⟨p3, h3, h⟩ := mem_seqs_cons.mp h
  obtain ⟨p4, h4, h5⟩ := mem_seqs_cons.mp h
  cases eq_of_mem_check h1
  cases eq_of_mem_check h5
  obtain ⟨f, hf, hlength, o2⟩ := mem_times.mp h2
  obtain ⟨d, hd, hlen, o4⟩ := over_of_mem_between h4
  refine ⟨f, d, hover.unique (o2.trans ((mem_text.mp h3).trans o4)), hf, hlength, hd, fun hnil => ?_⟩
  rw [hnil] at hlen
  exact absurd hlen (by decide)

theorem normalize_nist {f d : List Char} (hf : ∀ c ∈ f, isUpperLetter c = true) (hlen : f.length = 2)
    (hd : ∀ c ∈ d, isDigit c = true) (hne : d ≠ []) :
    normalizeCitation .nistControl (f ++ '-' :: d) = f ++ '-' :: d := by
  have hnotBlank : ∀ {c : Char}, isUpperLetter c = true ∨ isDigit c = true → c ≠ ' ' := by
    rintro c (h | h) rfl
    · exact absurd h (by decide)
    · exact absurd h (by decide)
  have htrim : trim (f ++ '-' :: d) = f ++ '-' :: d := by
    obtain ⟨c, f, rfl⟩ := List.exists_cons_of_length_pos (hlen ▸ Nat.two_pos)
    have hlast := List.getLast_mem hne
    have hfront : ((c :: f ++ '-' :: d).dropWhile fun x => decide (x = ' ')) = c :: f ++ '-' :: d :=
      List.dropWhile_cons_of_neg (by
        rw [decide_eq_true_iff]
        exact hnotBlank (.inl (hf c List.mem_cons_self)))
    rw [trim, hfront, List.rdropWhile_eq_self_iff]
    intro hl
    rw [decide_eq_true_iff, List.getLast_append_of_ne_nil _ (List.cons_ne_nil _ _),
      List.getLast_cons hne]
    exact hnotBlank (.inr (hd _ hlast))
  show upper (trim _) = _
  rw [htrim, upper, List.map_append, List.map_cons]
  refine congrArg₂ (· ++ ·) ?_ (congrArg₂ List.cons rfl (upper_digits hd))
  exact (List.map_congr_left fun c hc => toUpper_upperLetter (hf c hc)).trans (List.map_id f)

theorem written_nist {f d : List Char} (hf : ∀ c ∈ f, isUpperLetter c = true) (hlen : f.length = 2)
    (hd : ∀ c ∈ d, isDigit c = true) (hne : d ≠ []) :
    written .nistControl (f ++ '-' :: d) = (f, [d]) := by
  have hletters : ∀ c ∈ f ++ ['-'], isDigit c = false := by
    refine List.forall_mem_append.mpr ⟨fun c hc => ?_, List.forall_mem_singleton.mpr rfl⟩
    rw [← Bool.not_eq_true, isDigit_iff]
    have := isUpperLetter_iff.mp (hf c hc)
    omega
  have hnumerals : numerals (f ++ '-' :: d) = [d] := by
    rw [← List.singleton_append, ← List.append_assoc, numerals_skip hletters, numerals_digits hd hne]
  rw [written, hnumerals, family, if_pos rfl, ← hlen, List.take_left]

/-- The norm of a public law is its digits. -/
theorem normalize_publaw (raw : List Char) :
    normalizeCitation .publaw raw = (numerals raw).flatten := by
  have hdigit : ∀ c : Char, isDigit c.toUpper = isDigit c := by
    intro c
    by_cases hlower : 97 ≤ c.toNat ∧ c.toNat ≤ 122
    · have hupper : c.toUpper.toNat = (c.toNat + 4294967264) % 4294967296 := by
        rw [Char.toUpper, dif_pos ⟨hlower.1, hlower.2⟩]
        exact UInt32.toNat_add _ _
      rw [Bool.eq_iff_iff, isDigit_iff, isDigit_iff, hupper]
      omega
    · rw [toUpper_of_not_lower hlower]
  have hsame : isDigit ∘ Char.toUpper = isDigit := funext hdigit
  rw [flatten_numerals]
  show (raw.map Char.toUpper).filter isDigit = _
  rw [List.filter_map, hsame]
  refine (List.map_congr_left fun c hc => ?_).trans (List.map_id _)
  exact toUpper_digit (List.mem_filter.mp hc).2

/-- Two spellings have one norm when their title and section are the same. -/
theorem normalize_spelled {letters t s' : List Char} {kind : Kind}
    (hnorm : ∀ raw, normalizeCitation kind raw = (upper raw).filter isAlnum)
    (hkind : kind ≠ .nistControl) (hletters : ∃ c rest, letters = c :: rest ∧ isDigit c = false)
    (hr : Spelled letters r t d) (hs : Spelled letters s s' d') :
    normalizeCitation kind r = normalizeCitation kind s ↔ written kind r = written kind s := by
  obtain ⟨c, rest, rfl, hc⟩ := hletters
  rw [hnorm, hnorm, hr.norm, hs.norm, written, written, hr.numerals, hs.numerals, family, family,
    if_neg hkind, if_neg hkind, List.append_assoc, List.append_assoc, List.cons_append,
    List.cons_append, digits_append_cons_inj hr.title_digits hs.title_digits hc,
    List.append_right_inj, Prod.mk.injEq, List.cons.injEq, List.cons.injEq]
  constructor
  · rintro ⟨ht, hd⟩
    exact ⟨rfl, ht, hd, rfl⟩
  · rintro ⟨-, ht, hd, -⟩
    exact ⟨ht, hd⟩

/-- Norms agree on the same numbers, and on the same digits cut elsewhere where the norm
is nothing but digits. -/
theorem normalize_eq_iff {pat : CitationPattern} (hpat : pat ∈ citationPatterns)
    (hr : Matched pat.pattern r) (hs : Matched pat.pattern s) :
    normalizeCitation pat.kind r = normalizeCitation pat.kind s ↔
      written pat.kind r = written pat.kind s ∨ Recut pat.kind r s := by
  have hother : pat.kind ≠ .publaw → ¬ Recut pat.kind r s := fun hne h => hne h.1
  rcases List.mem_cons.mp hpat with rfl | hpat
  · obtain ⟨f, d, rfl, hf, hlen, hd, hne⟩ := matched_nist hr
    obtain ⟨f', d', rfl, hf', hlen', hd', hne'⟩ := matched_nist hs
    rw [or_iff_left (hother (by decide)), normalize_nist hf hlen hd hne,
      normalize_nist hf' hlen' hd' hne', written_nist hf hlen hd hne, written_nist hf' hlen' hd' hne',
      Prod.mk.injEq, List.cons.injEq]
    constructor
    · intro heq
      obtain ⟨hfamily, htail⟩ := List.append_inj heq (hlen.trans hlen'.symm)
      exact ⟨hfamily, (List.cons.inj htail).2, rfl⟩
    · rintro ⟨rfl, rfl, -⟩
      rfl
  · rcases List.mem_cons.mp hpat with rfl | hpat
    · obtain ⟨t, d, hspelled⟩ := spelled_usc hr
      obtain ⟨t', d', hspelled'⟩ := spelled_usc hs
      rw [or_iff_left (hother (by decide))]
      exact normalize_spelled (fun _ => rfl) (by decide) ⟨_, _, rfl, rfl⟩ hspelled hspelled'
    · rcases List.mem_cons.mp hpat with rfl | hpat
      · obtain ⟨t, d, hspelled⟩ := spelled_cfr hr
        obtain ⟨t', d', hspelled'⟩ := spelled_cfr hs
        rw [or_iff_left (hother (by decide))]
        exact normalize_spelled (fun _ => rfl) (by decide) ⟨_, _, rfl, rfl⟩ hspelled hspelled'
      · cases List.mem_singleton.mp hpat
        rw [normalize_publaw, normalize_publaw]
        have hwritten : written .publaw r = written .publaw s ↔ numerals r = numerals s := by
          rw [written, written, Prod.mk.injEq]
          exact and_iff_right rfl
        rw [hwritten]
        constructor
        · intro hflat
          by_cases hsame : numerals r = numerals s
          · exact .inl hsame
          · exact .inr ⟨rfl, hsame, hflat⟩
        · rintro (hsame | ⟨-, -, hflat⟩)
          · rw [hsame]
          · exact hflat

theorem meant_of_written (h : written kind r = written kind s) : meant kind r = meant kind s := by
  obtain ⟨hfamily, hnumerals⟩ := Prod.mk.inj h
  rw [meant, meant, hfamily, hnumerals]

/-- Norms tell citations by their numbers as written exactly when the digits are not those
of another public law cut elsewhere, and by the values of their numbers exactly when
besides none is padded with zeros. -/
theorem normalize_faithful_iff {pat : CitationPattern} (hpat : pat ∈ citationPatterns)
    (hr : Matched pat.pattern r) (hs : Matched pat.pattern s) :
    ((normalizeCitation pat.kind r = normalizeCitation pat.kind s ↔
        written pat.kind r = written pat.kind s) ↔ ¬ Recut pat.kind r s) ∧
      ((normalizeCitation pat.kind r = normalizeCitation pat.kind s ↔
        meant pat.kind r = meant pat.kind s) ↔
          (Recut pat.kind r s ↔ ZeroPadded pat.kind r s)) := by
  have hnorm := normalize_eq_iff hpat hr hs
  have hrecut : Recut pat.kind r s → written pat.kind r ≠ written pat.kind s := fun h heq =>
    h.2.1 (Prod.mk.inj heq).2
  have hmeant : written pat.kind r = written pat.kind s → meant pat.kind r = meant pat.kind s :=
    meant_of_written
  rw [hnorm]
  by_cases hwritten : written pat.kind r = written pat.kind s
  · have hnot : ¬ Recut pat.kind r s := fun h => hrecut h hwritten
    have hunpadded : ¬ ZeroPadded pat.kind r s := fun h => h.2 hwritten
    exact ⟨iff_of_true (iff_of_true (.inl hwritten) hwritten) hnot,
      iff_of_true (iff_of_true (.inl hwritten) (hmeant hwritten)) (iff_of_false hnot hunpadded)⟩
  · have hpadded : ZeroPadded pat.kind r s ↔ meant pat.kind r = meant pat.kind s := and_iff_left hwritten
    rw [or_iff_right hwritten, hpadded, iff_false_right hwritten]
    exact ⟨Iff.rfl, Iff.rfl⟩

end Lemmas

/-- Two spellings of one section. -/
theorem normalize_faithful_iff_section552 :
    ((normalizeCitation .usc "5 U.S.C. 552".toList = normalizeCitation .usc "5 USC 552".toList ↔
        written .usc "5 U.S.C. 552".toList = written .usc "5 USC 552".toList) ↔
          ¬ Recut .usc "5 U.S.C. 552".toList "5 USC 552".toList) ∧
      ((normalizeCitation .usc "5 U.S.C. 552".toList = normalizeCitation .usc "5 USC 552".toList ↔
        meant .usc "5 U.S.C. 552".toList = meant .usc "5 USC 552".toList) ↔
          (Recut .usc "5 U.S.C. 552".toList "5 USC 552".toList ↔
            ZeroPadded .usc "5 U.S.C. 552".toList "5 USC 552".toList)) :=
  have husc : (⟨.usc, uscPattern⟩ : CitationPattern) ∈ citationPatterns := .tail _ (.head _)
  normalize_faithful_iff husc ⟨[], [], by decide⟩ ⟨[], [], by decide⟩

/-- Law 758 of the 11th Congress, and law 58 of the 117th. -/
def elevenByThree : List Char := "Public Law 11-758".toList

def infrastructureAct : List Char := "Public Law 117-58".toList

/-- Two laws have one norm. -/
theorem two_laws_one_norm :
    Matched publawPattern elevenByThree ∧ Matched publawPattern infrastructureAct ∧
      normalizeCitation .publaw elevenByThree = "11758".toList ∧
      normalizeCitation .publaw infrastructureAct = "11758".toList ∧
      meant .publaw elevenByThree = ([], [11, 758]) ∧
      meant .publaw infrastructureAct = ([], [117, 58]) :=
  ⟨⟨[], [], by decide⟩, ⟨[], [], by decide⟩, by decide, by decide, by decide, by decide⟩

end SupabaseLab.CorpusGraph
