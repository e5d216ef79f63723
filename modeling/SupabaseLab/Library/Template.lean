/-
  Library/Template.lean --- texts with named placeholders, and their values put in.

  A placeholder is a name in capitals between braces, `/\{([A-Z_]+)\}/g`.  Two of
  them never overlap, so one scan from left to right cuts a text into placeholders
  and single units.  Values that no placeholder can run into may be put in one name
  after the other.
-/
import SupabaseLab.Library.JsonText

set_option autoImplicit false

namespace SupabaseLab.Library.Template

/-! ## Cutting a text -/

inductive Piece where
  | unit (u : Nat)
  | hole (name : JsText)
  deriving DecidableEq

def openBrace : Nat := '{'.toNat

def closeBrace : Nat := '}'.toNat

/-- `[A-Z_]` -/
def isNameUnit (u : Nat) : Bool := (65 ≤ u && u ≤ 90) || u = '_'.toNat

/-- An opening brace and units of a name that came to nothing. -/
def begun (acc : JsText) : List Piece := (openBrace :: acc.reverse).map .unit

/-- The scan: outside braces, or behind an opening brace with the units of a name so far,
backwards. -/
def scan : Option JsText → JsText → List Piece
  | none, [] => []
  | some acc, [] => begun acc
  | none, u :: s => if u = openBrace then scan (some []) s else .unit u :: scan none s
  | some acc, u :: s =>
      if isNameUnit u then scan (some (u :: acc)) s
      else if u = closeBrace ∧ acc ≠ [] then .hole acc.reverse :: scan none s
      else if u = openBrace then begun acc ++ scan (some []) s
      else begun acc ++ .unit u :: scan none s

def pieces (s : JsText) : List Piece := scan none s

/-! ## Putting values in -/

/-- A placeholder as it is written. -/
def holeText (name : JsText) : JsText := openBrace :: (name ++ [closeBrace])

/-- A placeholder without a value stays. -/
def Piece.fill (value : JsText → Option JsText) : Piece → JsText
  | .unit u => [u]
  | .hole name => (value name).getD (holeText name)

def fillPieces (value : JsText → Option JsText) (ps : List Piece) : JsText := ps.flatMap (Piece.fill value)

/-- Every placeholder that has a value is replaced by it. -/
def fill (value : JsText → Option JsText) (s : JsText) : JsText := fillPieces value (pieces s)

def Piece.name? : Piece → Option JsText
  | .unit _ => none
  | .hole name => some name

def names (ps : List Piece) : List JsText := ps.filterMap Piece.name?

/-- The names of the placeholders, in order. -/
def holes (s : JsText) : List JsText := names (pieces s)

/-- The first placeholder that has no value. -/
def missing? (value : JsText → Option JsText) (s : JsText) : Option JsText :=
  (holes s).find? fun name => (value name).isNone

/-- A unit that stands in no placeholder. -/
def Inert (u : Nat) : Prop := isNameUnit u = false ∧ u ≠ openBrace ∧ u ≠ closeBrace

instance (u : Nat) : Decidable (Inert u) := inferInstanceAs (Decidable (_ ∧ _ ∧ _))

section Scanning

variable {u : Nat} {acc s t : JsText} {st : Option JsText}

theorem scan_none_cons (h : u ≠ openBrace) (s : JsText) :
    scan none (u :: s) = .unit u :: scan none s := by
  rw [scan, if_neg h]

theorem scan_openBrace (s : JsText) : scan none (openBrace :: s) = scan (some []) s := by
  rw [scan, if_pos rfl]

theorem scan_nameUnit (h : isNameUnit u = true) (acc s : JsText) :
    scan (some acc) (u :: s) = scan (some (u :: acc)) s := by
  rw [scan, if_pos h]

theorem scan_inert (h : Inert u) (acc s : JsText) :
    scan (some acc) (u :: s) = begun acc ++ .unit u :: scan none s := by
  rw [scan, if_neg (by simp [h.1]), if_neg (fun hc => h.2.2 hc.1), if_neg h.2.1]

/-- An inert unit ends whatever was begun before it. -/
theorem scan_append_inert (h : Inert u) (st : Option JsText) (s t : JsText) :
    scan st (s ++ u :: t) = scan st s ++ .unit u :: scan none t := by
  induction s generalizing st with
  | nil =>
    cases st with
    | none => exact scan_none_cons h.2.1 t
    | some acc => exact scan_inert h acc t
  | cons v s ih =>
    cases st with
    | none =>
      simp only [List.cons_append, scan]
      split
      · exact ih (some [])
      · rw [ih none, List.cons_append]
    | some acc =>
      simp only [List.cons_append, scan]
      split_ifs
      · exact ih (some (v :: acc))
      · rw [ih none, List.cons_append]
      · rw [ih (some []), List.append_assoc]
      · rw [ih none, List.append_assoc, List.cons_append]

/-- Units other than an opening brace stay as they are. -/
theorem scan_units (h : ∀ u ∈ s, u ≠ openBrace) (t : JsText) :
    scan none (s ++ t) = s.map .unit ++ scan none t := by
  induction s with
  | nil => rfl
  | cons u s ih =>
    obtain ⟨hu, hs⟩ := List.forall_mem_cons.mp h
    rw [List.cons_append, scan_none_cons hu, ih hs, List.map_cons, List.cons_append]

end Scanning

/-! ## One name after the other -/

section Filling

variable {u : Nat} {acc s t : JsText} {st : Option JsText} {value value' : JsText → Option JsText}
  {ps qs : List Piece}

@[simp] theorem fillPieces_append :
    fillPieces value (ps ++ qs) = fillPieces value ps ++ fillPieces value qs := List.flatMap_append

@[simp] theorem fillPieces_cons (p : Piece) :
    fillPieces value (p :: ps) = p.fill value ++ fillPieces value ps := List.flatMap_cons

@[simp] theorem fillPieces_nil : fillPieces value [] = [] := rfl

@[simp] theorem fillPieces_units (s : JsText) : fillPieces value (s.map .unit) = s := by
  induction s with
  | nil => rfl
  | cons u s ih => rw [List.map_cons, fillPieces_cons, ih]; rfl

@[simp] theorem names_append : names (ps ++ qs) = names ps ++ names qs := List.filterMap_append

@[simp] theorem names_units (s : JsText) : names (s.map .unit) = [] := by
  induction s with
  | nil => rfl
  | cons u s ih => exact ih

@[simp] theorem names_nil : names [] = [] := rfl

@[simp] theorem names_unit (u : Nat) : names (.unit u :: ps) = names ps := rfl

@[simp] theorem names_hole (name : JsText) : names (.hole name :: ps) = name :: names ps := rfl

/-- A value that no placeholder runs into. -/
structure Solid (x : JsText) : Prop where
  ne_nil : x ≠ []
  inert : ∀ u ∈ x, Inert u

/-- What a piece becomes when some of the names get their values. -/
def Piece.put (value : JsText → Option JsText) : Piece → List Piece
  | .unit u => [.unit u]
  | .hole name => match value name with
    | some x => x.map .unit
    | none => [.hole name]

/-- What is begun ends before a unit that cannot go on with it. -/
theorem scan_begun (hacc : ∀ u ∈ acc, isNameUnit u = true) (t : JsText) :
    scan none (openBrace :: (acc.reverse ++ t)) = scan (some acc) t := by
  have hgo : ∀ (name before : JsText), (∀ u ∈ name, isNameUnit u = true) →
      scan (some before) (name ++ t) = scan (some (name.reverse ++ before)) t := by
    intro name
    induction name with
    | nil => exact fun _ _ => rfl
    | cons v name ih =>
      intro before hname
      obtain ⟨hv, hrest⟩ := List.forall_mem_cons.mp hname
      rw [List.cons_append, scan_nameUnit hv, ih _ hrest]
      simp
  rw [scan_openBrace, hgo acc.reverse [] fun v hv => hacc v (List.mem_reverse.mp hv)]
  simp

/-- A text goes on with a unit that is in no name and closes none. -/
def Breaks (t : JsText) : Prop := ∀ u ∈ t.head?, isNameUnit u = false ∧ u ≠ closeBrace

theorem scan_begun_break (hacc : ∀ u ∈ acc, isNameUnit u = true) (ht : Breaks t) :
    scan none (openBrace :: (acc.reverse ++ t)) = begun acc ++ scan none t := by
  rw [scan_begun hacc]
  cases t with
  | nil => simp [scan]
  | cons u t =>
    obtain ⟨hname, hclose⟩ := ht u rfl
    simp only [scan, hname, hclose, false_and, if_false, Bool.false_eq_true]
    split_ifs
    · rfl
    · rfl

theorem scan_begun_stop (acc : JsText) (hacc : ∀ u ∈ acc, isNameUnit u = true)
    (hname : isNameUnit u = false) (hopen : u ≠ openBrace)
    (hclose : ¬(u = closeBrace ∧ acc ≠ [])) (t : JsText) :
    scan none (openBrace :: acc.reverse ++ u :: t) = begun acc ++ .unit u :: scan none t := by
  rw [List.cons_append, scan_begun hacc, scan, if_neg (by simp [hname]), if_neg hclose, if_neg hopen]

theorem isNameUnit_openBrace : isNameUnit openBrace = false := rfl

theorem openBrace_ne_closeBrace : openBrace ≠ closeBrace := by decide

/-- Behind an opening brace the text goes on with a brace or with a value. -/
theorem breaks_begun (value : JsText → Option JsText) (acc : JsText) (ps : List Piece) :
    Breaks (fillPieces value (begun acc ++ ps)) := by
  rintro u hu
  obtain rfl : openBrace = u := by simpa [begun, Piece.fill] using hu
  exact ⟨isNameUnit_openBrace, openBrace_ne_closeBrace⟩

/-- What is scanned behind an opening brace begins with the brace, or is a placeholder. -/
theorem breaks_scan (hvalue : ∀ name x, value name = some x → Solid x) (acc s : JsText) :
    Breaks (fillPieces value (scan (some acc) s)) := by
  induction s generalizing acc with
  | nil => simpa [scan] using breaks_begun value acc []
  | cons v s ih =>
    rw [scan]
    split_ifs
    · exact ih (v :: acc)
    · intro u hu
      rw [fillPieces_cons, Piece.fill] at hu
      cases hname : value acc.reverse with
      | none =>
        obtain rfl : openBrace = u := by simpa [hname, holeText] using hu
        exact ⟨isNameUnit_openBrace, openBrace_ne_closeBrace⟩
      | some x =>
        obtain ⟨w, x', rfl⟩ := List.exists_cons_of_ne_nil (hvalue _ _ hname).ne_nil
        obtain rfl : w = u := by simpa [hname] using hu
        have hinert := (hvalue _ _ hname).inert w (.head _)
        exact ⟨hinert.1, hinert.2.2⟩
    · exact breaks_begun value acc _
    · exact breaks_begun value acc _

theorem scan_holeText (hname : s ≠ []) (hunits : ∀ u ∈ s, isNameUnit u = true) (t : JsText) :
    scan none (holeText s ++ t) = .hole s :: scan none t := by
  have hacc : ∀ u ∈ s.reverse, isNameUnit u = true := fun u hu => hunits u (List.mem_reverse.mp hu)
  have hbegun := scan_begun hacc (closeBrace :: t)
  rw [List.reverse_reverse] at hbegun
  rw [holeText, List.cons_append, List.append_assoc, List.singleton_append, hbegun, scan,
    if_neg (by decide), if_pos ⟨rfl, by simpa using hname⟩, List.reverse_reverse]

/-- Solid values can be put in first: the placeholders of the others are where they were. -/
theorem scan_fill (hvalue : ∀ name x, value name = some x → Solid x) (st : Option JsText)
    (hst : ∀ acc ∈ st, ∀ u ∈ acc, isNameUnit u = true) (s : JsText) :
    scan none (fillPieces value (scan st s)) = (scan st s).flatMap (Piece.put value) := by
  have hunits (x : JsText) : (x.map Piece.unit).flatMap (Piece.put value) = x.map .unit := by
    induction x with
    | nil => rfl
    | cons u x ih => rw [List.map_cons, List.flatMap_cons, ih]; rfl
  induction s generalizing st with
  | nil =>
    cases st with
    | none => rfl
    | some acc =>
      have hbreak : Breaks [] := by simp [Breaks]
      have hbegun := scan_begun_break (hst acc rfl) hbreak
      rw [List.append_nil, scan, List.append_nil] at hbegun
      rw [scan, begun, fillPieces_units, hbegun, hunits]
      rfl
  | cons u s ih =>
    cases st with
    | none =>
      rw [scan]
      split_ifs with hopen
      · exact ih (some []) (by simp)
      · rw [fillPieces_cons, List.flatMap_cons, ← ih none (by simp)]
        exact scan_none_cons hopen _
    | some acc =>
      have hacc := hst acc rfl
      rw [scan]
      split_ifs with hname hclose hopen
      · exact ih (some (u :: acc)) (by simpa [hname] using hacc)
      · have hrest := ih none (by simp)
        rw [fillPieces_cons, List.flatMap_cons, ← hrest, Piece.fill, Piece.put]
        cases hv : value acc.reverse with
        | none =>
          exact scan_holeText (by simpa using hclose.2)
            (fun v hv => hacc v (List.mem_reverse.mp hv)) _
        | some x => exact scan_units (fun w hw => ((hvalue _ _ hv).inert w hw).2.1) _
      · have hrest := ih (some []) (by simp)
        have hbreak := breaks_scan hvalue [] s
        rw [fillPieces_append, List.flatMap_append, begun, fillPieces_units, hunits, ← hrest]
        exact scan_begun_break hacc hbreak
      · have hrest := ih none (by simp)
        rw [fillPieces_append, List.flatMap_append, begun, fillPieces_units, hunits,
          fillPieces_cons, List.flatMap_cons, ← hrest]
        exact scan_begun_stop acc hacc (by simpa using hname) hopen hclose _

theorem pieces_fill (hvalue : ∀ name x, value name = some x → Solid x) (s : JsText) :
    pieces (fill value s) = (pieces s).flatMap (Piece.put value) := scan_fill hvalue none (by simp) s

theorem fillPieces_put (p : Piece) :
    fillPieces value' (p.put value) = p.fill fun name => (value name).or (value' name) := by
  cases p with
  | unit u => rfl
  | hole name =>
    rw [Piece.put, Piece.fill]
    cases value name with
    | none => simp [Piece.fill]
    | some x => simp

theorem names_put (p : Piece) :
    names (p.put value) = (names [p]).filter fun name => (value name).isNone := by
  cases p with
  | unit u => rfl
  | hole name =>
    rw [Piece.put]
    cases hname : value name with
    | none => simp [hname]
    | some x => simp [hname]

/-- Solid values first and the others behind them, or all at once. -/
theorem fill_fill (hvalue : ∀ name x, value name = some x → Solid x) (s : JsText) :
    fill value' (fill value s) = fill (fun name => (value name).or (value' name)) s := by
  rw [fill, pieces_fill hvalue, fill]
  induction pieces s with
  | nil => rfl
  | cons p ps ih => rw [List.flatMap_cons, fillPieces_append, fillPieces_put, ih, fillPieces_cons]

theorem holes_fill (hvalue : ∀ name x, value name = some x → Solid x) (s : JsText) :
    holes (fill value s) = (holes s).filter fun name => (value name).isNone := by
  rw [holes, pieces_fill hvalue, holes]
  induction pieces s with
  | nil => rfl
  | cons p ps ih =>
    rw [List.flatMap_cons, names_append, names_put, ih, ← List.filter_append, ← names_append]
    rfl

theorem missing?_fill (hvalue : ∀ name x, value name = some x → Solid x) (s : JsText) :
    missing? value' (fill value s) = missing? (fun name => (value name).or (value' name)) s := by
  rw [missing?, holes_fill hvalue, List.find?_filter, missing?]
  refine List.find?_congr fun name _ => ?_
  cases value name with
  | none => cases value' name <;> rfl
  | some x => rfl

end Filling

end SupabaseLab.Library.Template
