/-
  Library/JsonTemplate.lean --- placeholders filled in the text of a JSON value.

  The placeholders of `JSON.stringify(value)` are those of the value's strings, for
  escaping leaves braces and capitals alone and brings none of its own.  A text put
  in for one is not escaped, so the filled text is read as the value with filled
  strings just when every text put in may stand in a string as it is, and no two
  keys of an object become one.
-/
import SupabaseLab.Library.Template
import SupabaseLab.Library.JsonSize

set_option autoImplicit false

namespace SupabaseLab.Library.JsonText

open Template

/-! ## Escaping keeps placeholders -/

/-- The pieces of an escaped text, and those of the text itself. -/
inductive Written : List Piece → List Piece → Prop
  | nil : Written [] []
  | unit {c : JsText} {u : Nat} {ps qs : List Piece} (h : Spelling c u) (hrest : Written ps qs) :
      Written (c.map .unit ++ ps) (.unit u :: qs)
  | hole {name : JsText} {ps qs : List Piece} (h : ∀ u ∈ name, isNameUnit u = true)
      (hrest : Written ps qs) : Written (.hole name :: ps) (.hole name :: qs)

section Escaping

variable {u e : Nat} {before after : Option Nat} {acc s : JsText} {st : Option JsText}
  {ps qs : List Piece} {value : JsText → Option JsText}

theorem spelling_self (h : Plain u) : Spelling [u] u :=
  ⟨fun acc rest => tokens_plain h acc rest, by
    simp [cost_plain h.1 h.2.1 h.2.2]⟩

theorem plain_nameUnit (h : isNameUnit u = true) : Plain u := by
  simp [isNameUnit] at h
  refine ⟨?_, ?_, ?_⟩ <;> omega

theorem Written.begun (hacc : ∀ u ∈ acc, isNameUnit u = true) (h : Written ps qs) :
    Written (Template.begun acc ++ ps) (Template.begun acc ++ qs) := by
  have hplain : ∀ u ∈ openBrace :: acc.reverse, Plain u := by
    refine List.forall_mem_cons.mpr ⟨by decide, fun u hu => ?_⟩
    exact plain_nameUnit (hacc u (List.mem_reverse.mp hu))
  rw [Template.begun]
  revert hplain
  generalize openBrace :: acc.reverse = word
  intro hplain
  induction word with
  | nil => exact h
  | cons u word ih =>
    obtain ⟨hu, hword⟩ := List.forall_mem_cons.mp hplain
    exact Written.unit (c := [u]) (spelling_self hu) (ih hword)

/-- Braces and capitals are written as they are. -/
theorem quotedUnit_of_not_inert (h : ¬ Inert u) (before after : Option Nat) :
    quotedUnit before after u = [u] := by
  have hrange : 65 ≤ u ∧ u ≤ 90 ∨ u = 95 ∨ u = 123 ∨ u = 125 := by
    simp only [Inert, isNameUnit, openBrace, closeBrace, Bool.or_eq_false_iff,
      Bool.and_eq_false_iff, decide_eq_false_iff_not, Char.reduceToNat] at h
    omega
  have hshort : shortEscape? u = none := by
    unfold shortEscape?
    rw [if_neg (by simp; omega), if_neg (by omega), if_neg (by omega), if_neg (by omega),
      if_neg (by omega), if_neg (by omega)]
  have hhigh : isHighSurrogate u = false := by simp [isHighSurrogate]; omega
  have hlow : isLowSurrogate u = false := by simp [isLowSurrogate]; omega
  simp only [quotedUnit, hshort, hhigh, hlow, Bool.false_and, Bool.false_eq_true, if_false]
  rw [if_neg (by omega)]

theorem inert_shortEscape (h : shortEscape? u = some e) : Inert e := by
  unfold shortEscape? at h
  split_ifs at h with hself
  · obtain rfl : u = e := Option.some.inj h
    rcases hself with rfl | rfl
    · decide
    · decide
  all_goals
    obtain rfl := Option.some.inj h
    decide

theorem inert_digitChar : ∀ d < 16, Inert (Nat.digitChar d).toNat := by decide

theorem inert_unicodeEscape (u : Nat) : ∀ w ∈ unicodeEscape u, Inert w := by
  have hdigit (n : Nat) : Inert (Nat.digitChar (n % 16)).toNat :=
    inert_digitChar _ (Nat.mod_lt _ (by decide))
  simp only [unicodeEscape, List.forall_mem_cons, hdigit, List.not_mem_nil, IsEmpty.forall_iff,
    implies_true, and_true]
  decide

/-- An escape brings no brace and no capital. -/
theorem inert_quotedUnit (h : Inert u) (before after : Option Nat) :
    ∃ w c, quotedUnit before after u = w :: c ∧ Inert w ∧ ∀ v ∈ c, Inert v := by
  have hunicode : ∃ w c, unicodeEscape u = w :: c ∧ Inert w ∧ ∀ v ∈ c, Inert v :=
    ⟨_, _, rfl, List.forall_mem_cons.mp (inert_unicodeEscape u)⟩
  rw [quotedUnit]
  split
  · next e hshort =>
    exact ⟨92, [e], rfl, by decide, by simpa using inert_shortEscape hshort⟩
  · split_ifs
    · exact hunicode
    · exact hunicode
    · exact hunicode
    · exact ⟨u, [], rfl, h, by simp⟩

/-- What the scanner has begun and does not go on with. -/
theorem Written.stop (hst : ∀ acc ∈ st, ∀ u ∈ acc, isNameUnit u = true) (h : Written ps qs) :
    Written (scan st [] ++ ps) (scan st [] ++ qs) := by
  cases st with
  | none => exact h
  | some acc => exact .begun (hst acc rfl) h

theorem written_quotedFrom (st : Option JsText)
    (hst : ∀ acc ∈ st, ∀ u ∈ acc, isNameUnit u = true) (before : Option Nat) (s : JsText) : Written (scan st (quotedFrom before s)) (scan st s) := by
  induction s generalizing st before with
  | nil =>
    have hstop := Written.stop hst .nil
    simpa [quotedFrom] using hstop
  | cons u s ih =>
    rw [quotedFrom]
    by_cases hinert : Inert u
    · obtain ⟨w, c, hquoted, hw, hc⟩ := inert_quotedUnit hinert before s.head?
      have hspelling := quotedUnit_spelling before s.head? u
      have hrest := ih none (by simp) (some u)
      have hstep := scan_append_inert hw st [] (c ++ quotedFrom (some u) s)
      have hplainStep := scan_append_inert hinert st [] s
      rw [hquoted] at hspelling ⊢
      rw [List.nil_append] at hstep hplainStep
      rw [List.cons_append, hstep, hplainStep, scan_units fun v hv => (hc v hv).2.1]
      exact .stop hst (.unit hspelling hrest)
    · have hplain : Plain u := by
        simp only [Inert, isNameUnit, openBrace, closeBrace, Bool.or_eq_false_iff,
          Bool.and_eq_false_iff, decide_eq_false_iff_not, Char.reduceToNat] at hinert
        refine ⟨?_, ?_, ?_⟩ <;> omega
      rw [quotedUnit_of_not_inert hinert, List.singleton_append]
      cases st with
      | none =>
        simp only [scan]
        split_ifs
        · exact ih (some []) (by simp) (some u)
        · exact Written.unit (c := [u]) (spelling_self hplain) (ih none (by simp) (some u))
      | some acc =>
        have hacc := hst acc rfl
        simp only [scan]
        split_ifs with hname
        · exact ih (some (u :: acc)) (by simpa [hname] using hacc) (some u)
        · exact .hole (fun v hv => hacc v (List.mem_reverse.mp hv)) (ih none (by simp) (some u))
        · exact .begun hacc (ih (some []) (by simp) (some u))
        · exact .begun hacc (Written.unit (c := [u]) (spelling_self hplain) (ih none (by simp) (some u)))

theorem written_quoted (s : JsText) : Written (pieces (quoted s)) (pieces s) :=
  written_quotedFrom none (by simp) none s

theorem Written.names_eq (h : Written ps qs) : names ps = names qs := by
  induction h with
  | nil => rfl
  | unit _ _ ih => simpa using ih
  | hole _ _ ih => simpa using ih

/-- What a text put in a string costs beyond its own units. -/
def excess (x : JsText) : Nat := costs x - weights x

theorem weight_lt_cost (h : ¬ Plain u) : weight u < cost u := by
  have hcases : u = 34 ∨ u = 92 ∨ u < 32 := by
    simp only [Plain] at h
    omega
  rcases hcases with rfl | rfl | hlow
  · decide
  · decide
  · have hweight : weight u = 1 := by
      refine weight_eq_one ?_
      simp [isSurrogate, isHighSurrogate, isLowSurrogate]
      omega
    rw [hweight]
    unfold cost
    simp only [hlow, decide_true, Bool.true_or, if_true]
    split_ifs
    · decide
    · decide

theorem weight_le_cost (u : Nat) : weight u ≤ cost u := by
  by_cases h : Plain u
  · exact Nat.le_of_eq (cost_plain h.1 h.2.1 h.2.2).symm
  · exact Nat.le_of_lt (weight_lt_cost h)

theorem weights_le_costs (x : JsText) : weights x ≤ costs x := by
  induction x with
  | nil => exact Nat.le_refl 0
  | cons u x ih => exact Nat.add_le_add (weight_le_cost u) ih

/-- A text costs nothing beyond its units just when a string may hold it as it is. -/
theorem plain_of_excess {x : JsText} (h : excess x = 0) : ∀ u ∈ x, Plain u := by
  induction x with
  | nil => simp
  | cons u x ih =>
    have hunit := weight_le_cost u
    have hrest := weights_le_costs x
    simp only [excess, costs_cons, weights_cons] at h
    refine List.forall_mem_cons.mpr ⟨?_, ih (by rw [excess]; omega)⟩
    by_contra hplain
    have hlt := weight_lt_cost hplain
    omega

/-- The texts put in for the placeholders of a string. -/
def filled (value : JsText → Option JsText) (s : JsText) : List JsText := (holes s).filterMap value

def gap (value : JsText → Option JsText) (s : JsText) : Nat := ((filled value s).map excess).sum

theorem holeText_plain {name : JsText} (h : ∀ u ∈ name, isNameUnit u = true) :
    ∀ u ∈ holeText name, Plain u := by
  intro u hu
  rw [holeText, List.mem_cons, List.mem_append, List.mem_singleton] at hu
  rcases hu with rfl | hu | rfl
  · decide
  · exact plain_nameUnit (h u hu)
  · decide

/-- A filled text spells the filled string when every text put in may stand there. -/
theorem Written.spells (h : Written ps qs)
    (hplain : ∀ x ∈ (names qs).filterMap value, ∀ u ∈ x, Plain u) :
    Spells (fillPieces value ps) (fillPieces value qs) := by
  induction h with
  | nil => exact .nil
  | @unit c u ps qs hspelling _ ih =>
    have hrest := ih (by simpa using hplain)
    rw [fillPieces_append, fillPieces_units, fillPieces_cons]
    exact hspelling.1.append hrest
  | @hole name ps qs hname _ ih =>
    rw [fillPieces_cons, fillPieces_cons, Piece.fill]
    cases hvalue : value name with
    | none =>
      have hrest := ih (by simpa [hvalue] using hplain)
      exact (spells_plain (holeText_plain hname)).append hrest
    | some x =>
      simp only [names_hole, List.filterMap_cons, hvalue, List.forall_mem_cons] at hplain
      exact (spells_plain hplain.1).append (ih hplain.2)

theorem costs_plain {x : JsText} (h : ∀ u ∈ x, Plain u) : weights x = costs x := by
  induction x with
  | nil => rfl
  | cons u x ih =>
    obtain ⟨hu, hx⟩ := List.forall_mem_cons.mp h
    rw [weights_cons, costs_cons, cost_plain hu.1 hu.2.1 hu.2.2, ih hx]

/-- A filled text is short of the filled string by what the texts put in cost beyond their
units. -/
theorem Written.weights (h : Written ps qs) :
    JsonText.weights (fillPieces value ps) + (((names qs).filterMap value).map excess).sum =
      costs (fillPieces value qs) := by
  induction h with
  | nil => rfl
  | @unit c u ps qs hspelling _ ih =>
    have hunit := hspelling.2
    simp only [fillPieces_append, fillPieces_units, fillPieces_cons, Piece.fill, names_unit,
      weights_append, costs_append, costs_cons, costs_nil]
    omega
  | @hole name ps qs hname _ ih =>
    rw [fillPieces_cons, fillPieces_cons, Piece.fill]
    cases hvalue : value name with
    | none =>
      have hhole := costs_plain (holeText_plain hname)
      simp only [Option.getD_none, names_hole, List.filterMap_cons, hvalue, weights_append,
        costs_append]
      omega
    | some x =>
      have hle := weights_le_costs x
      simp only [Option.getD_some, names_hole, List.filterMap_cons, hvalue, weights_append,
        costs_append, List.map_cons, List.sum_cons, excess]
      omega

end Escaping

/-! ## Placeholders of a value's text -/

section Rendering

variable {c c' out out' s : JsText} {ns ns' : List JsText} {value : JsText → Option JsText}

/-- Outside braces this text becomes `out` and has these placeholders, whatever follows. -/
def Cuts (value : JsText → Option JsText) (c out : JsText) (ns : List JsText) : Prop :=
  ∀ rest, fillPieces value (scan none (c ++ rest)) = out ++ fillPieces value (scan none rest) ∧
    names (scan none (c ++ rest)) = ns ++ names (scan none rest)

theorem Cuts.append (h : Cuts value c out ns) (h' : Cuts value c' out' ns') :
    Cuts value (c ++ c') (out ++ out') (ns ++ ns') := by
  intro rest
  obtain ⟨hfill, hnames⟩ := h (c' ++ rest)
  obtain ⟨hfill', hnames'⟩ := h' rest
  rw [List.append_assoc, hfill, hnames, hfill', hnames', List.append_assoc, List.append_assoc]
  exact ⟨rfl, rfl⟩

theorem cuts_units (h : ∀ u ∈ s, u ≠ openBrace) : Cuts value s s [] := by
  intro rest
  rw [scan_units h, fillPieces_append, fillPieces_units, names_append, names_units]
  exact ⟨rfl, rfl⟩

/-- A brace before a quote or a brace that closes it. -/
theorem cuts_brace {u : Nat} (hname : isNameUnit u = false) (hopen : u ≠ openBrace)
    (h : Cuts value (u :: c) out ns) : Cuts value (openBrace :: u :: c) (openBrace :: out) ns := by
  intro rest
  obtain ⟨hfill, hnames⟩ := h rest
  rw [List.cons_append, scan_none_cons hopen] at hfill hnames
  have hbrace : scan none (openBrace :: u :: (c ++ rest)) =
      .unit openBrace :: .unit u :: scan none (c ++ rest) :=
    scan_begun_stop [] (by simp) hname hopen (by simp) (c ++ rest)
  rw [List.cons_append, List.cons_append, hbrace, fillPieces_cons, hfill, names_unit, hnames]
  exact ⟨rfl, rfl⟩

theorem cuts_string (value : JsText → Option JsText) (s : JsText) :
    Cuts value (34 :: (quoted s ++ [34])) (34 :: (fill value (quoted s) ++ [34])) (holes s) := by
  intro rest
  have hquote : Inert 34 := by decide
  have hclose := scan_append_inert hquote none (quoted s) rest
  have hnames := (written_quoted s).names_eq
  have hopen : (34 : Nat) ≠ openBrace := by decide
  rw [List.cons_append, List.append_assoc, List.singleton_append, scan_none_cons hopen, hclose]
  refine ⟨?_, ?_⟩
  · simp [Piece.fill, fill, pieces]
  · rw [names_unit, names_append, names_unit]
    exact congrArg (· ++ names (scan none rest)) hnames

theorem cuts_word (w : String) (h : w = "null" ∨ w = "true" ∨ w = "false") :
    Cuts value (units w) (units w) [] := by
  refine cuts_units ?_
  rcases h with rfl | rfl | rfl
  · decide
  · decide
  · decide

theorem cuts_num {d : JsText} (h : isNumber d = true) : Cuts value d d [] := by
  obtain ⟨u, d, rfl, hu, hd⟩ := isNumber_units h
  refine cuts_units (List.forall_mem_cons.mpr ⟨?_, fun v hv => ?_⟩)
  · rintro rfl
    rcases hu with hu | hu
    · cases hu
    · cases hu
  · rintro rfl
    exact absurd (hd _ hv) (by decide)

theorem cuts_comma (first : Bool) :
    Cuts value (if first then [] else [44]) (if first then [] else [44]) [] := by
  cases first with
  | true => exact cuts_units (by simp)
  | false => exact cuts_units (by decide)

mutual

/-- In the text of a value the placeholders are those of its strings. -/
theorem cuts_render (value : JsText → Option JsText) (v : JsonText) (hnum : Numeric v) :
    Cuts value (render quoted v) (render (fun s => fill value (quoted s)) v)
      ((strings v).flatMap holes) := by
  cases v with
  | null => exact cuts_word "null" (.inl rfl)
  | bool b =>
    cases b with
    | true => exact cuts_word "true" (.inr (.inl rfl))
    | false => exact cuts_word "false" (.inr (.inr rfl))
  | num d =>
    rw [Numeric] at hnum
    exact cuts_num hnum
  | str s => simpa [render, strings] using cuts_string value s
  | arr items =>
    rw [Numeric] at hnum
    have hopen : Cuts value [91] [91] [] := cuts_units (by decide)
    have hclose : Cuts value [93] [93] [] := cuts_units (by decide)
    have hall := hopen.append ((cuts_renderItems value true items hnum).append hclose)
    simpa [render, strings] using hall
  | obj members =>
    rw [Numeric] at hnum
    have hclose : Cuts value [125] [125] [] := cuts_units (by decide)
    have hinner := (cuts_renderMembers value true members hnum).append hclose
    have hbrace : openBrace = 123 := rfl
    cases members with
    | nil =>
      have hall := cuts_brace (c := []) (by decide) (by decide) hclose
      simpa [render, renderMembers, strings, memberStrings, hbrace] using hall
    | cons m members =>
      obtain ⟨key, v⟩ := m
      rw [renderMembers, if_pos rfl, List.nil_append, List.cons_append] at hinner
      have hall := cuts_brace (by decide) (by decide) hinner
      simpa [render, renderMembers, strings, hbrace] using hall

theorem cuts_renderItems (value : JsText → Option JsText) (first : Bool) (items : List JsonText)
    (hnum : NumericItems items) :
    Cuts value (renderItems quoted first items)
      (renderItems (fun s => fill value (quoted s)) first items)
      ((itemStrings items).flatMap holes) := by
  cases items with
  | nil =>
    have hnone : Cuts value [] [] [] := cuts_units (by simp)
    simpa [renderItems, itemStrings] using hnone
  | cons v items =>
    rw [NumericItems] at hnum
    have hv := cuts_render value v hnum.1
    have hitems := cuts_renderItems value false items hnum.2
    have hall := (cuts_comma first).append (hv.append hitems)
    simpa [renderItems, itemStrings] using hall

theorem cuts_renderMembers (value : JsText → Option JsText) (first : Bool)
    (members : List (JsText × JsonText)) (hnum : NumericMembers members) :
    Cuts value (renderMembers quoted first members)
      (renderMembers (fun s => fill value (quoted s)) first members)
      ((memberStrings members).flatMap holes) := by
  cases members with
  | nil =>
    have hnone : Cuts value [] [] [] := cuts_units (by simp)
    simpa [renderMembers, memberStrings] using hnone
  | cons m members =>
    obtain ⟨key, v⟩ := m
    rw [NumericMembers] at hnum
    have hcolon : Cuts value [58] [58] [] := cuts_units (by decide)
    have hv := cuts_render value v hnum.1
    have hmembers := cuts_renderMembers value false members hnum.2
    have hall := (cuts_comma first).append
      ((cuts_string value key).append (hcolon.append (hv.append hmembers)))
    simpa [renderMembers, memberStrings] using hall

end

end Rendering

/-! ## Filling the text, filling the strings -/

section Filling

variable {v : JsonText} {value : JsText → Option JsText}

theorem fill_stringify (hnum : Numeric v) :
    fill value (stringify v) = render (fun s => fill value (quoted s)) v := by
  simpa [fill, pieces, stringify, scan] using (cuts_render value v hnum []).1

theorem holes_stringify (hnum : Numeric v) : holes (stringify v) = (strings v).flatMap holes := by
  simpa [holes, pieces, stringify, scan] using (cuts_render (fun _ => none) v hnum []).2

/-- Every text put into a string of the value may stand there as it is. -/
def PlainlyFilled (value : JsText → Option JsText) (v : JsonText) : Prop :=
  ∀ s ∈ strings v, ∀ x ∈ filled value s, ∀ u ∈ x, Plain u

theorem parse_fill_stringify (hnum : Numeric v) (h : PlainlyFilled value v) :
    parse (fill value (stringify v)) = some (mapStrings (fill value) v) := by
  rw [fill_stringify hnum]
  exact parse_render (fun s hs => (written_quoted s).spells (h s hs)) hnum

/-- A text put in that needs escaping costs more than the filled text can pay for. -/
theorem plainlyFilled_of_size (hnum : Numeric v)
    (h : size (mapStrings (fill value) v) ≤ weights (fill value (stringify v))) :
    PlainlyFilled value v := by
  have hsize : weights (render (fun s => fill value (quoted s)) v) +
      ((strings v).map (gap value)).sum = size (mapStrings (fill value) v) :=
    weights_render v fun s _ => (written_quoted s).weights
  rw [← fill_stringify hnum] at hsize
  have hzero : ((strings v).map (gap value)).sum = 0 := by omega
  intro s hs x hx
  have hgap := List.sum_eq_zero_iff.mp hzero _ (List.mem_map_of_mem hs)
  exact plain_of_excess (List.sum_eq_zero_iff.mp hgap _ (List.mem_map_of_mem hx))

/-- The filled text is read as the value with its strings filled exactly when what is put in
needs no escape and no two keys of an object become one. -/
theorem read_fill_stringify_iff (hnum : Numeric v) :
    read (fill value (stringify v)) = some (mapStrings (fill value) v) ↔
      PlainlyFilled value v ∧ DistinctKeys (mapStrings (fill value) v) := by
  constructor
  · intro hread
    have hplain := plainlyFilled_of_size hnum (size_read hread)
    rw [read, parse_fill_stringify hnum hplain, Option.map_some, Option.some.injEq] at hread
    exact ⟨hplain, (collapse_eq_self_iff _).mp hread⟩
  · rintro ⟨hplain, hdistinct⟩
    rw [read, parse_fill_stringify hnum hplain, Option.map_some, (collapse_eq_self_iff _).mpr hdistinct]

end Filling

end SupabaseLab.Library.JsonText
