/-
  Library/Postgrest.lean --- the read queries of PostgREST: what a query string asks for.

  A query selects columns, filters by a tree of conditions, orders, and cuts.  The
  grammar of filter trees is a relation; the parser reads every text of the grammar as
  the tree it writes.  A table says how its columns are compared.
-/
import SupabaseLab.Library.UrlText

set_option autoImplicit false

namespace SupabaseLab.Library.Postgrest

/-! ## Filters -/

/-- `column.op.value`, `and(...)` and `or(...)`. -/
inductive Filter where
  | cond (column op value : String)
  | all (fs : List Filter)
  | any (fs : List Filter)

/-- A value that is not quoted goes on up to one of these. -/
def endsValue (c : Char) : Bool := c = ',' || c = ')'

/-- Up to the closing quote; a backslash quotes the character after it. -/
def parseQuoted : List Char → Option (List Char × List Char)
  | [] => none
  | '"' :: rest => some ([], rest)
  | '\\' :: c :: rest => (parseQuoted rest).map fun vr => (c :: vr.1, vr.2)
  | c :: rest => (parseQuoted rest).map fun vr => (c :: vr.1, vr.2)

def parseValue : List Char → Option (List Char × List Char)
  | '"' :: rest => parseQuoted rest
  | cs => some (cs.takeWhile fun c => !endsValue c, cs.dropWhile fun c => !endsValue c)

/-- The text up to the first dot, and what comes after the dot. -/
def parseName (cs : List Char) : Option (List Char × List Char) :=
  match cs.dropWhile (· ≠ '.') with
  | [] => none
  | _ :: rest => some (cs.takeWhile (· ≠ '.'), rest)

def parseCond (cs : List Char) : Option (Filter × List Char) :=
  (parseName cs).bind fun cr => (parseName cr.2).bind fun or =>
    (parseValue or.2).map fun vr =>
      (.cond (String.ofList cr.1) (String.ofList or.1) (String.ofList vr.1), vr.2)

mutual

def parseFilter : Nat → List Char → Option (Filter × List Char)
  | 0, _ => none
  | fuel + 1, cs =>
      if "and(".toList <+: cs then
        (parseFilters fuel (cs.drop 4)).map fun fr => (.all fr.1, fr.2)
      else if "or(".toList <+: cs then
        (parseFilters fuel (cs.drop 3)).map fun fr => (.any fr.1, fr.2)
      else parseCond cs

/-- Filters with commas between them, up to the closing parenthesis. -/
def parseFilters : Nat → List Char → Option (List Filter × List Char)
  | 0, _ => none
  | fuel + 1, cs =>
      (parseFilter fuel cs).bind fun fr =>
        match fr.2 with
        | ',' :: rest => (parseFilters fuel rest).map fun fsr => (fr.1 :: fsr.1, fsr.2)
        | ')' :: rest => some ([fr.1], rest)
        | _ => none

end

/-! ## The grammar of filters -/

/-- Names have neither dots nor parentheses. -/
def NameText (cs : List Char) : Prop := '.' ∉ cs ∧ '(' ∉ cs

/-- Nothing in the text has to be escaped between quotes. -/
def QuotableText (cs : List Char) : Prop := '"' ∉ cs ∧ '\\' ∉ cs

/-- The text is a value as it stands. -/
def BareText (cs : List Char) : Prop := ',' ∉ cs ∧ ')' ∉ cs ∧ cs.head? ≠ some '"'

mutual

/-- The text writes the filter. -/
inductive Written : List Char → Filter → Prop
  | quoted {column op value : List Char} (hcolumn : NameText column) (hop : NameText op)
      (hvalue : QuotableText value) :
      Written (column ++ '.' :: (op ++ '.' :: '"' :: (value ++ ['"'])))
        (.cond (String.ofList column) (String.ofList op) (String.ofList value))
  | bare {column op value : List Char} (hcolumn : NameText column) (hop : NameText op)
      (hvalue : BareText value) :
      Written (column ++ '.' :: (op ++ '.' :: value))
        (.cond (String.ofList column) (String.ofList op) (String.ofList value))
  | all {text : List Char} {fs : List Filter} (h : WrittenAll text fs) :
      Written ("and(".toList ++ (text ++ [')'])) (.all fs)
  | any {text : List Char} {fs : List Filter} (h : WrittenAll text fs) :
      Written ("or(".toList ++ (text ++ [')'])) (.any fs)

inductive WrittenAll : List Char → List Filter → Prop
  | one {text : List Char} {f : Filter} (h : Written text f) : WrittenAll text [f]
  | cons {text texts : List Char} {f : Filter} {fs : List Filter} (h : Written text f)
      (hs : WrittenAll texts fs) : WrittenAll (text ++ ',' :: texts) (f :: fs)

end

section Parser

variable {cs rest column op value text : List Char} {f : Filter} {fs : List Filter} {fuel : Nat}

theorem parseQuoted_append (h : QuotableText value) (rest : List Char) :
    parseQuoted (value ++ '"' :: rest) = some (value, rest) := by
  induction value with
  | nil => rfl
  | cons c value ih =>
    obtain ⟨hquote, hslash⟩ := h
    rw [List.mem_cons, not_or] at hquote hslash
    rw [List.cons_append, parseQuoted, ih ⟨hquote.2, hslash.2⟩]
    · rfl
    · exact fun heq => hquote.1 heq.symm
    · exact fun _ _ heq => absurd heq.symm hslash.1

theorem parseValue_bare (h : BareText value) {c : Char} (hc : endsValue c = true) (rest : List Char) :
    parseValue (value ++ c :: rest) = some (value, c :: rest) := by
  obtain ⟨hcomma, hparen, hhead⟩ := h
  have hvalue : ∀ x ∈ value, (!endsValue x) = true := by
    intro x hx
    have hx₁ : x ≠ ',' := fun heq => hcomma (heq ▸ hx)
    have hx₂ : x ≠ ')' := fun heq => hparen (heq ▸ hx)
    simp [endsValue, hx₁, hx₂]
  have hquote : ∀ tail, value ++ c :: rest ≠ '"' :: tail := by
    intro tail heq
    cases value with
    | nil =>
      obtain ⟨rfl, -⟩ := List.cons.inj heq
      simp [endsValue] at hc
    | cons x value =>
      obtain ⟨rfl, -⟩ := List.cons.inj heq
      exact hhead rfl
  rw [parseValue, List.takeWhile_append_of_pos hvalue, List.dropWhile_append_of_pos hvalue]
  · simp [hc]
  · exact hquote

theorem parseName_append (h : '.' ∉ column) (rest : List Char) :
    parseName (column ++ '.' :: rest) = some (column, rest) := by
  have hcolumn : ∀ c ∈ column, decide (c ≠ '.') = true := by
    intro c hc
    rw [decide_eq_true_eq]
    rintro rfl
    exact h hc
  unfold parseName
  rw [List.takeWhile_append_of_pos hcolumn, List.dropWhile_append_of_pos hcolumn]
  simp

/-- A condition is no `and(` and no `or(`. -/
theorem not_operator (h : NameText column) (rest : List Char) :
    ¬ "and(".toList <+: column ++ '.' :: rest ∧ ¬ "or(".toList <+: column ++ '.' :: rest := by
  obtain ⟨-, hparen⟩ := h
  constructor
  · rintro ⟨tail, htail⟩
    rcases column with _ | ⟨a, _ | ⟨b, _ | ⟨c, _ | ⟨d, column⟩⟩⟩⟩ <;> simp_all
  · rintro ⟨tail, htail⟩
    rcases column with _ | ⟨a, _ | ⟨b, _ | ⟨c, column⟩⟩⟩ <;> simp_all

theorem parseFilter_cond (hcolumn : NameText column) (hop : NameText op) {input : List Char}
    (hvalue : parseValue input = some (value, rest)) :
    parseFilter (fuel + 1) (column ++ '.' :: (op ++ '.' :: input)) =
      some (.cond (String.ofList column) (String.ofList op) (String.ofList value), rest) := by
  obtain ⟨hand, hor⟩ := not_operator hcolumn (op ++ '.' :: input)
  rw [parseFilter, if_neg hand, if_neg hor]
  unfold parseCond
  rw [parseName_append hcolumn.1, Option.bind_some, parseName_append hop.1, Option.bind_some, hvalue]
  rfl

mutual

/-- A text of the grammar, before a comma or a closing parenthesis, is read as what it
writes; fuel for its characters is enough. -/
theorem parseFilter_written {cs : List Char} {f : Filter} (h : Written cs f) {fuel : Nat} {c : Char}
    (hfuel : cs.length ≤ fuel) (hc : endsValue c = true) (rest : List Char) :
    parseFilter fuel (cs ++ c :: rest) = some (f, c :: rest) := by
  cases h with
  | @quoted column op value hcolumn hop hvalue =>
    obtain ⟨fuel, rfl⟩ : ∃ n, fuel = n + 1 := Nat.exists_eq_add_one.mpr (by
      simp only [List.length_append, List.length_cons] at hfuel
      omega)
    simp only [List.append_assoc, List.cons_append, List.nil_append]
    exact parseFilter_cond hcolumn hop (parseQuoted_append hvalue (c :: rest))
  | @bare column op value hcolumn hop hvalue =>
    obtain ⟨fuel, rfl⟩ : ∃ n, fuel = n + 1 := Nat.exists_eq_add_one.mpr (by
      simp only [List.length_append, List.length_cons] at hfuel
      omega)
    simp only [List.append_assoc, List.cons_append]
    exact parseFilter_cond hcolumn hop (parseValue_bare hvalue hc rest)
  | @all text fs h =>
    have hlength : "and(".toList.length = 4 := rfl
    simp only [List.length_append, hlength, List.length_singleton] at hfuel
    obtain ⟨fuel, rfl⟩ : ∃ n, fuel = n + 1 := Nat.exists_eq_add_one.mpr (by omega)
    rw [List.append_assoc, parseFilter, if_pos (List.prefix_append _ _), List.drop_left' hlength,
      List.append_assoc, List.singleton_append, parseFilters_written h (by omega) (c :: rest)]
    rfl
  | @any text fs h =>
    have hlength : "or(".toList.length = 3 := rfl
    simp only [List.length_append, hlength, List.length_singleton] at hfuel
    obtain ⟨fuel, rfl⟩ : ∃ n, fuel = n + 1 := Nat.exists_eq_add_one.mpr (by omega)
    have hand : ¬ "and(".toList <+: "or(".toList ++ (text ++ [')']) ++ c :: rest := by
      rintro ⟨tail, htail⟩
      simp at htail
    rw [parseFilter, if_neg hand, List.append_assoc, if_pos (List.prefix_append _ _),
      List.drop_left' hlength, List.append_assoc, List.singleton_append,
      parseFilters_written h (by omega) (c :: rest)]
    rfl

theorem parseFilters_written {cs : List Char} {fs : List Filter} (h : WrittenAll cs fs) {fuel : Nat}
    (hfuel : cs.length + 1 ≤ fuel) (rest : List Char) :
    parseFilters fuel (cs ++ ')' :: rest) = some (fs, rest) := by
  obtain ⟨fuel, rfl⟩ : ∃ n, fuel = n + 1 := Nat.exists_eq_add_one.mpr (by omega)
  cases h with
  | one h =>
    rw [parseFilters, parseFilter_written h (by omega) rfl rest, Option.bind_some]
    rfl
  | @cons text texts f fs h hs =>
    simp only [List.length_append, List.length_cons] at hfuel
    rw [List.append_assoc, List.cons_append, parseFilters,
      parseFilter_written h (by omega) rfl (texts ++ ')' :: rest), Option.bind_some]
    have htexts : texts.length + 1 ≤ fuel := by omega
    exact congrArg (Option.map fun fsr => (f :: fsr.1, fsr.2)) (parseFilters_written hs htexts rest)

end

end Parser

/-! ## Queries -/

structure OrderTerm where
  column : String
  descending : Bool
  deriving DecidableEq

structure Query where
  select : List String := []
  order : List OrderTerm := []
  limit : Option Nat := none
  offset : Nat := 0
  filters : List Filter := []

def commaSeparated (s : String) : List (List Char) := s.toList.splitOn ','

def parseOrderTerm (cs : List Char) : Option OrderTerm :=
  match parseName cs with
  | none => some ⟨String.ofList cs, false⟩
  | some (column, direction) =>
      if direction = "desc".toList then some ⟨String.ofList column, true⟩
      else if direction = "asc".toList then some ⟨String.ofList column, false⟩
      else none

def parseNat (s : String) : Option Nat :=
  if s.toList ≠ [] ∧ s.toList.all Char.isDigit then some (Nat.ofDigitChars 10 s.toList 0) else none

/-- The list of an `or=(...)`. -/
def parseTree (s : String) : Option (List Filter) :=
  match s.toList with
  | '(' :: rest =>
      match parseFilters (rest.length + 1) rest with
      | some (fs, []) => some fs
      | _ => none
  | _ => none

/-- One parameter of the query string; a name that is none of these is not read here. -/
def parseParam (q : Query) (name value : String) : Option Query :=
  match name with
  | "select" => some { q with select := (commaSeparated value).map String.ofList }
  | "order" => ((commaSeparated value).mapM parseOrderTerm).map fun order => { q with order := order }
  | "limit" => (parseNat value).map fun n => { q with limit := some n }
  | "offset" => (parseNat value).map fun n => { q with offset := n }
  | "or" => (parseTree value).map fun fs => { q with filters := q.filters ++ [.any fs] }
  | _ => none

def parsePairs (q : Query) : List (List Char × List Char) → Option Query
  | [] => some q
  | (name, value) :: pairs =>
      (decodeText name).bind fun name => (decodeText value).bind fun value =>
        (parseParam q name value).bind fun q => parsePairs q pairs

def parseQuery (query : String) : Option Query := parsePairs {} (queryPairs query)

/-! ## Answers -/

/-- How a table compares its columns; `test` is `none` for a column, an operator or a value
that it does not know. -/
structure Columns (ρ : Type) where
  test : String → String → String → ρ → Option Bool
  compare : String → ρ → ρ → Ordering

section Answer

variable {ρ : Type} (t : Columns ρ)

mutual

def Filter.holds (r : ρ) : Filter → Option Bool
  | .cond column op value => t.test column op value r
  | .all fs => holdsAll r fs
  | .any fs => holdsAny r fs

def holdsAll (r : ρ) : List Filter → Option Bool
  | [] => some true
  | f :: fs => (f.holds r).bind fun b => (holdsAll r fs).map (b && ·)

def holdsAny (r : ρ) : List Filter → Option Bool
  | [] => some false
  | f :: fs => (f.holds r).bind fun b => (holdsAny r fs).map (b || ·)

end

/-- The rows that a condition keeps. -/
def keepRows (keep : ρ → Option Bool) : List ρ → Option (List ρ)
  | [] => some []
  | r :: rows => (keep r).bind fun b => (keepRows keep rows).map fun kept =>
      if b then r :: kept else kept

/-- The order of the terms, the first that tells two rows apart. -/
def precedes : List OrderTerm → ρ → ρ → Bool
  | [], _, _ => true
  | term :: terms, a, b =>
      match if term.descending then t.compare term.column b a else t.compare term.column a b with
      | .lt => true
      | .gt => false
      | .eq => precedes terms a b

/-- The rows a query asks for; `none` where PostgREST answers with an error. -/
def answer (rows : List ρ) (q : Query) : Option (List ρ) :=
  (keepRows (fun r => holdsAll t r q.filters) rows).map fun kept =>
    let ordered := (kept.mergeSort (precedes t q.order)).drop q.offset
    match q.limit with
    | some n => ordered.take n
    | none => ordered

theorem keepRows_eq {keep : ρ → Option Bool} {p : ρ → Bool} {rows : List ρ}
    (h : ∀ r ∈ rows, keep r = some (p r)) : keepRows keep rows = some (rows.filter p) := by
  induction rows with
  | nil => rfl
  | cons r rows ih =>
    obtain ⟨hr, hrest⟩ := List.forall_mem_cons.mp h
    rw [keepRows, hr, Option.bind_some, ih hrest, Option.map_some, List.filter_cons]

end Answer

end SupabaseLab.Library.Postgrest
