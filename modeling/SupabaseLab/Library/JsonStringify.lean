/-
  Library/JsonStringify.lean --- `JSON.stringify`, and what `JSON.parse` makes of it.

  A value is written with its strings passed through a function, so that texts that
  are JSON.stringify's but for their strings can be spoken of.  What is written is
  read back when every string is spelled as one that a literal may hold.

  A text pays for the value it is read as: no value needs more units than the text
  has.  A surrogate counts as the six units of its escape.
-/
import SupabaseLab.Library.JsonText
import SupabaseLab.Library.JsMap

set_option autoImplicit false

namespace SupabaseLab.Library.JsonText

/-! ## Writing strings -/

def isHighSurrogate (u : Nat) : Bool := 0xD800 ≤ u && u ≤ 0xDBFF

def isLowSurrogate (u : Nat) : Bool := 0xDC00 ≤ u && u ≤ 0xDFFF

def isSurrogate (u : Nat) : Bool := isHighSurrogate u || isLowSurrogate u

/-- `\uXXXX` -/
def unicodeEscape (u : Nat) : JsText :=
  [92, 'u'.toNat, (Nat.digitChar (u / 4096 % 16)).toNat, (Nat.digitChar (u / 256 % 16)).toNat,
    (Nat.digitChar (u / 16 % 16)).toNat, (Nat.digitChar (u % 16)).toNat]

/-- The unit that stands behind `\` for this one. -/
def shortEscape? (u : Nat) : Option Nat :=
  if u = '"'.toNat ∨ u = '\\'.toNat then some u
  else if u = 8 then some 'b'.toNat
  else if u = 9 then some 't'.toNat
  else if u = 10 then some 'n'.toNat
  else if u = 12 then some 'f'.toNat
  else if u = 13 then some 'r'.toNat
  else none

/-- One unit of a string, between its neighbours: a surrogate without its other half is
escaped. -/
def quotedUnit (before after : Option Nat) (u : Nat) : JsText :=
  match shortEscape? u with
  | some e => [92, e]
  | none =>
      if u < 32 then unicodeEscape u
      else if isHighSurrogate u && !after.any isLowSurrogate then unicodeEscape u
      else if isLowSurrogate u && !before.any isHighSurrogate then unicodeEscape u
      else [u]

def quotedFrom : Option Nat → JsText → JsText
  | _, [] => []
  | before, u :: s => quotedUnit before s.head? u ++ quotedFrom (some u) s

/-- What stands between the quotes of a string. -/
def quoted (s : JsText) : JsText := quotedFrom none s

/-! ## Writing values -/

mutual

/-- The text of a value whose strings have this between their quotes. -/
def render (content : JsText → JsText) : JsonText → JsText
  | .null => units "null"
  | .bool b => units (if b then "true" else "false")
  | .num digits => digits
  | .str s => 34 :: (content s ++ [34])
  | .arr items => 91 :: (renderItems content true items ++ [93])
  | .obj members => 123 :: (renderMembers content true members ++ [125])

def renderItems (content : JsText → JsText) : Bool → List JsonText → JsText
  | _, [] => []
  | first, v :: items =>
      (if first then [] else [44]) ++ (render content v ++ renderItems content false items)

def renderMembers (content : JsText → JsText) : Bool → List (JsText × JsonText) → JsText
  | _, [] => []
  | first, (key, v) :: members =>
      (if first then [] else [44]) ++ (34 :: (content key ++ 34 :: 58 ::
        (render content v ++ renderMembers content false members)))

end

/-- `JSON.stringify(value)`. -/
def stringify (v : JsonText) : JsText := render quoted v

mutual

/-- The value with all its strings changed, keys included. -/
def mapStrings (f : JsText → JsText) : JsonText → JsonText
  | .null => .null
  | .bool b => .bool b
  | .num digits => .num digits
  | .str s => .str (f s)
  | .arr items => .arr (mapItems f items)
  | .obj members => .obj (mapMembers f members)

def mapItems (f : JsText → JsText) : List JsonText → List JsonText
  | [] => []
  | v :: items => mapStrings f v :: mapItems f items

def mapMembers (f : JsText → JsText) : List (JsText × JsonText) → List (JsText × JsonText)
  | [] => []
  | (key, v) :: members => (f key, mapStrings f v) :: mapMembers f members

end

mutual

/-- The strings of a value, keys included. -/
def strings : JsonText → List JsText
  | .str s => [s]
  | .arr items => itemStrings items
  | .obj members => memberStrings members
  | _ => []

def itemStrings : List JsonText → List JsText
  | [] => []
  | v :: items => strings v ++ itemStrings items

def memberStrings : List (JsText × JsonText) → List JsText
  | [] => []
  | (key, v) :: members => key :: (strings v ++ memberStrings members)

end

mutual

/-- Every number is written as one. -/
def Numeric : JsonText → Prop
  | .num digits => isNumber digits = true
  | .arr items => NumericItems items
  | .obj members => NumericMembers members
  | _ => True

def NumericItems : List JsonText → Prop
  | [] => True
  | v :: items => Numeric v ∧ NumericItems items

def NumericMembers : List (JsText × JsonText) → Prop
  | [] => True
  | (_, v) :: members => Numeric v ∧ NumericMembers members

end

mutual

/-- No object has a key twice. -/
def DistinctKeys : JsonText → Prop
  | .arr items => DistinctItems items
  | .obj members => (members.map Prod.fst).Nodup ∧ DistinctMembers members
  | _ => True

def DistinctItems : List JsonText → Prop
  | [] => True
  | v :: items => DistinctKeys v ∧ DistinctItems items

def DistinctMembers : List (JsText × JsonText) → Prop
  | [] => True
  | (_, v) :: members => DistinctKeys v ∧ DistinctMembers members

end

mutual

/-- The value as an object of JavaScript holds it: of a key that is written twice, the last. -/
def collapse : JsonText → JsonText
  | .arr items => .arr (collapseItems items)
  | .obj members => .obj ((collapseMembers members).foldl (fun m e => JsMap.set m e.1 e.2) [])
  | .null => .null
  | .bool b => .bool b
  | .num digits => .num digits
  | .str s => .str s

def collapseItems : List JsonText → List JsonText
  | [] => []
  | v :: items => collapse v :: collapseItems items

def collapseMembers : List (JsText × JsonText) → List (JsText × JsonText)
  | [] => []
  | (key, v) :: members => (key, collapse v) :: collapseMembers members

end

/-- `JSON.parse`, every object with each of its keys once. -/
def read (s : JsText) : Option JsonText := (parse s).map collapse

/-! ## Strings read back -/

section Spelling

variable {c c' s s' : JsText} {u e : Nat} {before after : Option Nat}

/-- What stands between the quotes is read as this string. -/
def Spells (c s : JsText) : Prop :=
  ∀ acc rest, tokens (.str acc) (c ++ rest) = tokens (.str (s.reverse ++ acc)) rest

theorem Spells.nil : Spells [] [] := fun _ _ => rfl

theorem Spells.append (h : Spells c s) (h' : Spells c' s') : Spells (c ++ c') (s ++ s') := by
  intro acc rest
  rw [List.append_assoc, h, h', List.reverse_append, List.append_assoc]

/-- A unit that a string may hold as it is. -/
def Plain (u : Nat) : Prop := u ≠ 34 ∧ u ≠ 92 ∧ 32 ≤ u

instance (u : Nat) : Decidable (Plain u) := inferInstanceAs (Decidable (_ ∧ _ ∧ _))

theorem tokens_plain (h : Plain u) (acc rest : JsText) :
    tokens (.str acc) (u :: rest) = tokens (.str (u :: acc)) rest := by
  have hstep : (Scan.str acc).step u = some ([], .str (u :: acc)) := by
    have hquote : u ≠ '"'.toNat := h.1
    have hback : u ≠ '\\'.toNat := h.2.1
    rw [Scan.step, if_neg hquote, if_neg hback, if_neg (Nat.not_lt.mpr h.2.2)]
  rw [tokens, hstep]
  simp

theorem spells_plain (h : ∀ u ∈ s, Plain u) : Spells s s := by
  induction s with
  | nil => exact .nil
  | cons u s ih =>
    obtain ⟨hu, hs⟩ := List.forall_mem_cons.mp h
    refine Spells.append (c := [u]) (s := [u]) ?_ (ih hs)
    exact fun acc rest => tokens_plain hu acc rest

theorem tokens_backslash (acc rest : JsText) :
    tokens (.str acc) (92 :: rest) = tokens (.escape acc) rest := by
  have hstep : (Scan.str acc).step 92 = some ([], .escape acc) := rfl
  rw [tokens, hstep]
  simp

theorem spells_escaped (he : e ≠ 'u'.toNat) (h : escaped e = some u) : Spells [92, e] [u] := by
  intro acc rest
  have hstep : (Scan.escape acc).step e = some ([], .str (u :: acc)) := by
    rw [Scan.step, if_neg he, h, Option.map_some]
  rw [List.cons_append, tokens_backslash, List.singleton_append, tokens, hstep]
  simp

theorem tokens_hex {d : Nat} (hd : d < 16) (acc rest : JsText) (count value : Nat) :
    tokens (.hex acc count value) ((Nat.digitChar d).toNat :: rest) =
      if count = 3 then tokens (.str ((16 * value + d) :: acc)) rest
      else tokens (.hex acc (count + 1) (16 * value + d)) rest := by
  rw [tokens, Scan.step, hexDigit?_digitChar hd]
  split_ifs
  · simp
  · simp

theorem spells_unicodeEscape (h : u < 65536) : Spells (unicodeEscape u) [u] := by
  intro acc rest
  have hstep : (Scan.escape acc).step 'u'.toNat = some ([], .hex acc 0 0) := rfl
  have hfour : 16 * (16 * (16 * (16 * 0 + u / 4096 % 16) + u / 256 % 16) + u / 16 % 16) + u % 16 = u := by
    omega
  simp only [unicodeEscape, List.cons_append, List.nil_append]
  rw [tokens_backslash, tokens, hstep]
  simp only [Option.bind_some, List.nil_append, Option.map_id']
  rw [tokens_hex (Nat.mod_lt _ (by decide)), if_neg (by decide),
    tokens_hex (Nat.mod_lt _ (by decide)), if_neg (by decide),
    tokens_hex (Nat.mod_lt _ (by decide)), if_neg (by decide),
    tokens_hex (Nat.mod_lt _ (by decide)), if_pos rfl, hfour]
  rfl

theorem escaped_shortEscape (h : shortEscape? u = some e) : e ≠ 'u'.toNat ∧ escaped e = some u := by
  unfold shortEscape? at h
  split_ifs at h with hself h8 h9 h10 h12 h13
  · obtain rfl : u = e := Option.some.inj h
    rcases hself with rfl | rfl
    · decide
    · decide
  all_goals
    obtain rfl := Option.some.inj h
    subst u
    decide

theorem shortEscape?_eq_none (h : shortEscape? u = none) : u ≠ 34 ∧ u ≠ 92 := by
  refine ⟨?_, ?_⟩
  · rintro rfl
    exact absurd h (by decide)
  · rintro rfl
    exact absurd h (by decide)

theorem lt_of_isSurrogate (h : isSurrogate u = true) : u < 65536 := by
  simp [isSurrogate, isHighSurrogate, isLowSurrogate] at h
  omega

/-- What one unit costs at least in a literal. -/
def cost (u : Nat) : Nat :=
  if (shortEscape? u).isSome then 2 else if u < 32 || isSurrogate u then 6 else 1

def weight (u : Nat) : Nat := if isSurrogate u then 6 else 1

def costs (s : JsText) : Nat := (s.map cost).sum

def weights (s : JsText) : Nat := (s.map weight).sum

@[simp] theorem costs_nil : costs [] = 0 := rfl

@[simp] theorem costs_cons : costs (u :: s) = cost u + costs s := rfl

@[simp] theorem costs_append : costs (s ++ s') = costs s + costs s' := by simp [costs]

@[simp] theorem costs_reverse : costs s.reverse = costs s := by simp [costs]

@[simp] theorem weights_nil : weights [] = 0 := rfl

@[simp] theorem weights_cons : weights (u :: s) = weight u + weights s := rfl

@[simp] theorem weights_append : weights (s ++ s') = weights s + weights s' := by simp [weights]

theorem weight_eq_one (h : isSurrogate u = false) : weight u = 1 := by simp [weight, h]

/-- A spelling of one unit, as short as there is. -/
def Spelling (c : JsText) (u : Nat) : Prop := Spells c [u] ∧ weights c = cost u

theorem isSurrogate_digitChar : ∀ d < 16, isSurrogate (Nat.digitChar d).toNat = false := by decide

theorem weights_unicodeEscape (u : Nat) : weights (unicodeEscape u) = 6 := by
  have hdigit (n : Nat) : weight (Nat.digitChar (n % 16)).toNat = 1 :=
    weight_eq_one (isSurrogate_digitChar _ (Nat.mod_lt _ (by decide)))
  simp only [unicodeEscape, weights_cons, hdigit, weights_nil]
  rfl

theorem isSurrogate_shortEscape (h : shortEscape? u = some e) : isSurrogate e = false := by
  obtain ⟨-, hescaped⟩ := escaped_shortEscape h
  by_contra hsurrogate
  have hwide : 128 ≤ e := by
    simp [isSurrogate, isHighSurrogate, isLowSurrogate] at hsurrogate
    omega
  have hnone : escaped e = none := by
    rw [escaped, if_neg (by simp; omega), if_neg (by simp; omega), if_neg (by simp; omega),
      if_neg (by simp; omega), if_neg (by simp; omega), if_neg (by simp; omega)]
  simp [hnone] at hescaped

theorem spelling_unicodeEscape (hshort : shortEscape? u = none) (h : u < 32 ∨ isSurrogate u = true) :
    Spelling (unicodeEscape u) u := by
  have hunits : u < 65536 := h.elim (fun hlow => by omega) lt_of_isSurrogate
  refine ⟨spells_unicodeEscape hunits, ?_⟩
  rw [weights_unicodeEscape, cost, hshort]
  simp [h]

theorem quotedUnit_spelling (before after : Option Nat) (u : Nat) :
    Spelling (quotedUnit before after u) u := by
  rw [quotedUnit]
  split
  · next e hshort =>
    obtain ⟨he, hescaped⟩ := escaped_shortEscape hshort
    refine ⟨spells_escaped he hescaped, ?_⟩
    simp [cost, hshort, weight_eq_one (isSurrogate_shortEscape hshort), weight_eq_one (u := 92) rfl]
  · next hshort =>
    split_ifs with hlow hhigh hsecond
    · exact spelling_unicodeEscape hshort (.inl hlow)
    · simp only [Bool.and_eq_true] at hhigh
      exact spelling_unicodeEscape hshort (.inr (by simp [isSurrogate, hhigh.1]))
    · simp only [Bool.and_eq_true] at hsecond
      exact spelling_unicodeEscape hshort (.inr (by simp [isSurrogate, hsecond.1]))
    · obtain ⟨hquote, hback⟩ := shortEscape?_eq_none hshort
      refine ⟨fun acc rest => tokens_plain ⟨hquote, hback, Nat.not_lt.mp hlow⟩ acc rest, ?_⟩
      simp [cost, weight, hshort, hlow]

end Spelling

/-! ## Numbers -/

section Numbers

variable {s r d : JsText} {u : Nat}

theorem isNumberUnit_of_digit (h : isDigitUnit u = true) : isNumberUnit u = true := by
  simp [isNumberUnit, h]

theorem digits_eq_some (h : digits s = some r) :
    ∃ p, p ≠ [] ∧ s = p ++ r ∧ ∀ u ∈ p, isDigitUnit u = true := by
  cases s with
  | nil => cases h
  | cons u s =>
    rw [digits] at h
    split_ifs at h with hu
    obtain rfl := Option.some.inj h
    refine ⟨u :: s.takeWhile isDigitUnit, List.cons_ne_nil _ _, ?_, ?_⟩
    · rw [List.cons_append, List.takeWhile_append_dropWhile]
    · exact List.forall_mem_cons.mpr ⟨hu, fun v hv => List.mem_takeWhile_imp hv⟩

theorem intPart_eq_some (h : intPart s = some r) :
    ∃ p, p ≠ [] ∧ s = p ++ r ∧ ∀ u ∈ p, isDigitUnit u = true := by
  cases s with
  | nil => cases h
  | cons u s =>
    rw [intPart] at h
    split_ifs at h with hu
    · obtain rfl := Option.some.inj h
      exact ⟨[u], List.cons_ne_nil _ _, rfl, by simp [hu, isDigitUnit]⟩
    · exact digits_eq_some h

theorem fraction_eq_some (h : fraction s = some r) :
    ∃ p, s = p ++ r ∧ ∀ u ∈ p, isNumberUnit u = true := by
  cases s with
  | nil => exact ⟨[], by rw [← Option.some.inj h]; rfl, by simp⟩
  | cons u s =>
    rw [fraction] at h
    split_ifs at h with hu
    · obtain ⟨p, -, rfl, hp⟩ := digits_eq_some h
      refine ⟨u :: p, rfl, List.forall_mem_cons.mpr ⟨?_, fun v hv => isNumberUnit_of_digit (hp v hv)⟩⟩
      rw [hu]
      rfl
    · exact ⟨[], Option.some.inj h, by simp⟩

theorem exponent_eq_some (h : exponent s = some r) :
    ∃ p, s = p ++ r ∧ ∀ u ∈ p, isNumberUnit u = true := by
  cases s with
  | nil => exact ⟨[], by rw [← Option.some.inj h]; rfl, by simp⟩
  | cons u s =>
    rw [exponent] at h
    split_ifs at h with hu hsign
    · have hunit : isNumberUnit u = true := by
        rcases hu with rfl | rfl
        · rfl
        · rfl
      obtain ⟨p, -, heq, hp⟩ := digits_eq_some h
      have hall (v : Nat) (hv : v ∈ p) := isNumberUnit_of_digit (hp v hv)
      cases s with
      | nil => simp at hsign
      | cons sign s =>
        obtain rfl : s = p ++ r := heq
        refine ⟨u :: sign :: p, rfl, List.forall_mem_cons.mpr ⟨hunit, List.forall_mem_cons.mpr ⟨?_, hall⟩⟩⟩
        simp only [List.head?_cons, Option.some.injEq] at hsign
        rcases hsign with rfl | rfl
        · rfl
        · rfl
    · have hunit : isNumberUnit u = true := by
        rcases hu with rfl | rfl
        · rfl
        · rfl
      obtain ⟨p, -, rfl, hp⟩ := digits_eq_some h
      exact ⟨u :: p, rfl, List.forall_mem_cons.mpr ⟨hunit, fun v hv => isNumberUnit_of_digit (hp v hv)⟩⟩
    · exact ⟨[], Option.some.inj h, by simp⟩

/-- A number begins like one, and all its units belong to it. -/
theorem isNumber_units (h : isNumber d = true) : ∃ u d', d = u :: d' ∧
    (isDigitUnit u = true ∨ u = '-'.toNat) ∧ ∀ v ∈ d', isNumberUnit v = true := by
  have hbody (s : JsText) (hs : ((intPart s).bind fraction).bind exponent = some []) :
      ∃ u s', s = u :: s' ∧ isDigitUnit u = true ∧ ∀ v ∈ s', isNumberUnit v = true := by
    obtain ⟨r', hr', hexponent⟩ := Option.bind_eq_some_iff.mp hs
    obtain ⟨r, hr, hfraction⟩ := Option.bind_eq_some_iff.mp hr'
    obtain ⟨p, hne, rfl, hp⟩ := intPart_eq_some hr
    obtain ⟨p', rfl, hp'⟩ := fraction_eq_some hfraction
    obtain ⟨p'', rfl, hp''⟩ := exponent_eq_some hexponent
    obtain ⟨u, p, rfl⟩ := List.exists_cons_of_ne_nil hne
    obtain ⟨hu, hp⟩ := List.forall_mem_cons.mp hp
    refine ⟨u, p ++ (p' ++ (p'' ++ [])), rfl, hu, fun v hv => ?_⟩
    simp only [List.append_nil, List.mem_append] at hv
    rcases hv with hv | hv | hv
    · exact isNumberUnit_of_digit (hp v hv)
    · exact hp' v hv
    · exact hp'' v hv
  rw [isNumber, decide_eq_true_iff] at h
  split_ifs at h with hminus
  · obtain ⟨u, s, hs, hu, hall⟩ := hbody _ h
    obtain ⟨t, rfl⟩ := List.head?_eq_some_iff.mp hminus
    obtain rfl : t = u :: s := hs
    exact ⟨_, u :: s, rfl, .inr rfl, List.forall_mem_cons.mpr ⟨isNumberUnit_of_digit hu, hall⟩⟩
  · obtain ⟨u, s, rfl, hu, hall⟩ := hbody _ h
    exact ⟨u, s, rfl, .inl hu, hall⟩

end Numbers

/-! ## The tokens of a value -/

mutual

def tokensOf : JsonText → List Token
  | .null => [.word (units "null")]
  | .bool b => [.word (units (if b then "true" else "false"))]
  | .num digits => [.num digits]
  | .str s => [.str s]
  | .arr items => .punct '[' :: (itemTokens true items ++ [.punct ']'])
  | .obj members => .punct '{' :: (memberTokens true members ++ [.punct '}'])

def itemTokens : Bool → List JsonText → List Token
  | _, [] => []
  | first, v :: items => (if first then [] else [.punct ',']) ++ (tokensOf v ++ itemTokens false items)

def memberTokens : Bool → List (JsText × JsonText) → List Token
  | _, [] => []
  | first, (key, v) :: members =>
      (if first then [] else [.punct ',']) ++
        (.str key :: .punct ':' :: (tokensOf v ++ memberTokens false members))

end

section Tokens

variable {c s d rest : JsText} {u : Nat} {scan : Scan} {content f : JsText → JsText}

/-- What follows a value: nothing, or a unit that ends it. -/
def Delimited (rest : JsText) : Prop := ∀ u ∈ rest.head?, u = 44 ∨ u = 93 ∨ u = 125

theorem tokens_punct {p : Char} (h : start u = some ([.punct p], .idle)) (rest : JsText) :
    tokens .idle (u :: rest) = (tokens .idle rest).map (.punct p :: ·) := by
  rw [tokens, Scan.step, h]
  rfl

/-- A token that the next unit ends. -/
theorem tokens_ends {t : Token} (hrest : Delimited rest) (hfinish : scan.finish = some [t])
    (hstep : ∀ u, u = 44 ∨ u = 93 ∨ u = 125 → scan.step u = before t u) :
    tokens scan rest = (tokens .idle rest).map (t :: ·) := by
  cases rest with
  | nil => rw [tokens, hfinish]; rfl
  | cons u rest =>
    have hu := hrest u rfl
    rw [tokens, tokens, hstep u hu, before, Scan.step]
    rcases hu with rfl | rfl | rfl
    · simp [start, isSpace, isDigitUnit, isLowerUnit, Function.comp_def]
    · simp [start, isSpace, isDigitUnit, isLowerUnit, Function.comp_def]
    · simp [start, isSpace, isDigitUnit, isLowerUnit, Function.comp_def]

theorem tokens_string (h : Spells c s) (rest : JsText) :
    tokens .idle (34 :: (c ++ 34 :: rest)) = (tokens .idle rest).map (.str s :: ·) := by
  have hopen : Scan.idle.step 34 = some ([], .str []) := rfl
  have hclose : (Scan.str (s.reverse ++ [])).step 34 = some ([.str s], .idle) := by
    simp [Scan.step]
  rw [tokens, hopen, Option.bind_some, h, tokens, hclose]
  simp [Function.comp_def]

theorem tokens_num (h : isNumber d = true) (hrest : Delimited rest) :
    tokens .idle (d ++ rest) = (tokens .idle rest).map (.num d :: ·) := by
  obtain ⟨u, d, rfl, hu, hall⟩ := isNumber_units h
  have hgo : ∀ (d acc : JsText), (∀ v ∈ d, isNumberUnit v = true) →
      tokens (.num acc) (d ++ rest) = tokens (.num (d.reverse ++ acc)) rest := by
    intro d
    induction d with
    | nil => exact fun _ _ => rfl
    | cons v d ih =>
      intro acc hd
      obtain ⟨hv, hd⟩ := List.forall_mem_cons.mp hd
      rw [List.cons_append, tokens, Scan.step, if_pos hv]
      simpa using ih (v :: acc) hd
  have hstart : start u = some ([], .num [u]) := by
    have hspace : isSpace u = false := by
      rcases hu with hu | rfl
      · simp [isDigitUnit] at hu
        simp [isSpace]
        omega
      · rfl
    have hquote : u ≠ '"'.toNat := by
      rcases hu with hu | rfl
      · simp [isDigitUnit] at hu
        simp
        omega
      · decide
    have hnumber : (isDigitUnit u || decide (u = '-'.toNat)) = true := by simpa using hu
    simp only [start, hspace, hquote, hnumber, if_true, if_false, Bool.false_eq_true]
  have hstop : numToken (d.reverse ++ [u]) = some (.num (u :: d)) := by
    rw [numToken, List.reverse_append, List.reverse_reverse, List.reverse_singleton,
      List.singleton_append, if_pos h]
  rw [List.cons_append, tokens, Scan.step, hstart]
  simp only [Option.bind_some, List.nil_append, Option.map_id']
  rw [hgo d [u] hall]
  refine tokens_ends hrest (by rw [Scan.finish, hstop]; rfl) fun v hv => ?_
  have hno : isNumberUnit v = false := by
    rcases hv with rfl | rfl | rfl
    · rfl
    · rfl
    · rfl
  rw [Scan.step, if_neg (by simp [hno]), hstop]
  rfl

theorem tokens_word {w : String} (hw : w = "null" ∨ w = "true" ∨ w = "false")
    (hrest : Delimited rest) :
    tokens .idle (units w ++ rest) = (tokens .idle rest).map (.word (units w) :: ·) := by
  have hstop (acc : JsText) (hacc : acc.reverse = units w) : tokens (.word acc) rest =
      (tokens .idle rest).map (.word (units w) :: ·) := by
    have htoken : wordToken acc = some (.word (units w)) := by
      rw [wordToken, hacc, if_pos]
      rcases hw with rfl | rfl | rfl
      · exact .inr (.inr rfl)
      · exact .inl rfl
      · exact .inr (.inl rfl)
    refine tokens_ends hrest (by rw [Scan.finish, htoken]; rfl) fun v hv => ?_
    have hno : isLowerUnit v = false := by
      rcases hv with rfl | rfl | rfl
      · rfl
      · rfl
      · rfl
    rw [Scan.step, if_neg (by simp [hno]), htoken]
    rfl
  have hlower (u : Nat) (acc more : JsText) (hu : isLowerUnit u = true) :
      tokens (.word acc) (u :: more) = tokens (.word (u :: acc)) more := by
    rw [tokens, Scan.step, if_pos hu]
    simp
  have hstart (u : Nat) (more : JsText) (hu : start u = some ([], .word [u])) :
      tokens .idle (u :: more) = tokens (.word [u]) more := by
    rw [tokens, Scan.step, hu]
    simp
  rcases hw with rfl | rfl | rfl
  · have hunits : units "null" = [110, 117, 108, 108] := by decide
    rw [← hstop [108, 108, 117, 110] (by decide), hunits]
    simp only [List.cons_append, List.nil_append]
    rw [hstart _ _ rfl, hlower _ _ _ rfl, hlower _ _ _ rfl, hlower _ _ _ rfl]
  · have hunits : units "true" = [116, 114, 117, 101] := by decide
    rw [← hstop [101, 117, 114, 116] (by decide), hunits]
    simp only [List.cons_append, List.nil_append]
    rw [hstart _ _ rfl, hlower _ _ _ rfl, hlower _ _ _ rfl, hlower _ _ _ rfl]
  · have hunits : units "false" = [102, 97, 108, 115, 101] := by decide
    rw [← hstop [101, 115, 108, 97, 102] (by decide), hunits]
    simp only [List.cons_append, List.nil_append]
    rw [hstart _ _ rfl, hlower _ _ _ rfl, hlower _ _ _ rfl, hlower _ _ _ rfl, hlower _ _ _ rfl]

theorem Delimited.renderItems (hrest : Delimited rest) (content : JsText → JsText)
    (items : List JsonText) : Delimited (renderItems content false items ++ rest) := by
  cases items with
  | nil => exact hrest
  | cons v items =>
    intro u hu
    exact .inl (Option.some.inj hu).symm

theorem Delimited.renderMembers (hrest : Delimited rest) (content : JsText → JsText)
    (members : List (JsText × JsonText)) :
    Delimited (renderMembers content false members ++ rest) := by
  cases members with
  | nil => exact hrest
  | cons m members =>
    intro u hu
    exact .inl (Option.some.inj hu).symm

theorem delimited_cons (h : u = 44 ∨ u = 93 ∨ u = 125) (rest : JsText) : Delimited (u :: rest) := by
  intro v hv
  obtain rfl : u = v := Option.some.inj hv
  exact h

/-- A comma before every value but the first. -/
theorem tokens_comma (first : Bool) (rest : JsText) :
    tokens .idle ((if first then [] else [44]) ++ rest) =
      (tokens .idle rest).map ((if first then [] else [.punct ',']) ++ ·) := by
  cases first with
  | true => simp
  | false => exact tokens_punct rfl rest

mutual

/-- A value whose strings are spelled as others is read as the value with these. -/
theorem tokens_render (v : JsonText) (rest : JsText) (hspells : ∀ s ∈ strings v, Spells (content s) (f s))
    (hnum : Numeric v) (hrest : Delimited rest) :
    tokens .idle (render content v ++ rest) =
      (tokens .idle rest).map (tokensOf (mapStrings f v) ++ ·) := by
  cases v with
  | null => exact tokens_word (.inl rfl) hrest
  | bool b =>
    cases b with
    | true => exact tokens_word (.inr (.inl rfl)) hrest
    | false => exact tokens_word (.inr (.inr rfl)) hrest
  | num d =>
    rw [Numeric] at hnum
    exact tokens_num hnum hrest
  | str s =>
    have hs := tokens_string (hspells s (by simp [strings])) rest
    simpa [render, mapStrings, tokensOf] using hs
  | arr items =>
    have hitems := tokens_renderItems true items (93 :: rest)
      (fun s hs => hspells s (by simpa [strings] using hs)) (by simpa [Numeric] using hnum)
      (delimited_cons (by decide) rest)
    have hclose : tokens .idle (93 :: rest) = _ := tokens_punct rfl rest
    rw [render, List.cons_append, List.append_assoc, List.singleton_append, tokens_punct rfl, hitems,
      hclose]
    simp [mapStrings, tokensOf, Function.comp_def]
  | obj members =>
    have hmembers := tokens_renderMembers true members (125 :: rest)
      (fun s hs => hspells s (by simpa [strings] using hs)) (by simpa [Numeric] using hnum)
      (delimited_cons (by decide) rest)
    have hclose : tokens .idle (125 :: rest) = _ := tokens_punct rfl rest
    rw [render, List.cons_append, List.append_assoc, List.singleton_append, tokens_punct rfl,
      hmembers, hclose]
    simp [mapStrings, tokensOf, Function.comp_def]

theorem tokens_renderItems (first : Bool) (items : List JsonText) (rest : JsText)
    (hspells : ∀ s ∈ itemStrings items, Spells (content s) (f s)) (hnum : NumericItems items)
    (hrest : Delimited rest) : tokens .idle (renderItems content first items ++ rest) =
      (tokens .idle rest).map (itemTokens first (mapItems f items) ++ ·) := by
  cases items with
  | nil => simp [renderItems, mapItems, itemTokens]
  | cons v items =>
    rw [NumericItems] at hnum
    have hv := tokens_render v (renderItems content false items ++ rest)
      (fun s hs => hspells s (by simp [itemStrings, hs])) hnum.1 (hrest.renderItems content items)
    have hitems := tokens_renderItems false items rest
      (fun s hs => hspells s (by simp [itemStrings, hs])) hnum.2 hrest
    rw [renderItems, List.append_assoc, tokens_comma, List.append_assoc, hv, hitems]
    simp [mapItems, itemTokens, Function.comp_def]

theorem tokens_renderMembers (first : Bool) (members : List (JsText × JsonText)) (rest : JsText)
    (hspells : ∀ s ∈ memberStrings members, Spells (content s) (f s))
    (hnum : NumericMembers members) (hrest : Delimited rest) :
    tokens .idle (renderMembers content first members ++ rest) =
      (tokens .idle rest).map (memberTokens first (mapMembers f members) ++ ·) := by
  cases members with
  | nil => simp [renderMembers, mapMembers, memberTokens]
  | cons m members =>
    obtain ⟨key, v⟩ := m
    rw [NumericMembers] at hnum
    have hv := tokens_render v (renderMembers content false members ++ rest)
      (fun s hs => hspells s (by simp [memberStrings, hs])) hnum.1 (hrest.renderMembers content members)
    have hmembers := tokens_renderMembers false members rest
      (fun s hs => hspells s (by simp [memberStrings, hs])) hnum.2 hrest
    have hkey := tokens_string (hspells key (by simp [memberStrings]))
      (58 :: (render content v ++ (renderMembers content false members ++ rest)))
    have hcolon : tokens .idle (58 :: (render content v ++ (renderMembers content false members ++ rest))) =
      _ := tokens_punct rfl _
    rw [renderMembers, List.append_assoc, tokens_comma]
    simp only [List.cons_append, List.append_assoc]
    rw [hkey, hcolon, hv, hmembers]
    simp [mapMembers, memberTokens, Function.comp_def]

end

end Tokens

/-! ## The value of the tokens -/

section Values

variable {stack : List Level} {ts : List Token}

theorem wordValue_null : wordValue (units "null") = .null := if_pos rfl

theorem wordValue_bool (b : Bool) : wordValue (units (if b then "true" else "false")) = .bool b := by
  cases b with
  | true => rw [wordValue, if_neg (by decide)]; rfl
  | false => rw [wordValue, if_neg (by decide)]; rfl

/-- Behind `[` a value begins as it does behind a comma. -/
theorem foldlM_item (v : JsonText) (stack : List Level) (ts : List Token) :
    (tokensOf v ++ ts).foldlM Parse.step (.item stack) =
      (tokensOf v ++ ts).foldlM Parse.step (.value (.arr [] :: stack)) := by
  cases v <;> simp [tokensOf, Parse.step]

mutual

/-- The tokens of a value build it. -/
theorem foldlM_tokensOf (v : JsonText) (stack : List Level) (ts : List Token) :
    (tokensOf v ++ ts).foldlM Parse.step (.value stack) = ts.foldlM Parse.step (.done v stack) := by
  cases v with
  | null => rw [tokensOf, ← wordValue_null]; rfl
  | bool b => rw [tokensOf, ← wordValue_bool b]; rfl
  | num d => rw [tokensOf]; rfl
  | str s => rw [tokensOf]; rfl
  | arr items =>
    have hopen : (Parse.value stack).step (.punct '[') = some (.item stack) := rfl
    rw [tokensOf, List.cons_append, List.append_assoc, List.singleton_append, List.foldlM_cons, hopen]
    cases items with
    | nil => rw [itemTokens]; rfl
    | cons w items =>
      rw [itemTokens, if_pos rfl, List.nil_append, List.append_assoc]
      exact (foldlM_item w stack _).trans ((foldlM_tokensOf w _ _).trans
        (foldlM_itemTokens items w [] stack ts))
  | obj members =>
    have hopen : (Parse.value stack).step (.punct '{') = some (.key true [] stack) := rfl
    rw [tokensOf, List.cons_append, List.append_assoc, List.singleton_append, List.foldlM_cons, hopen]
    cases members with
    | nil => rw [memberTokens]; rfl
    | cons m members =>
      obtain ⟨key, w⟩ := m
      rw [memberTokens, if_pos rfl, List.nil_append]
      simp only [List.cons_append, List.append_assoc]
      exact (foldlM_tokensOf w _ _).trans (foldlM_memberTokens members w [] key stack ts)

theorem foldlM_itemTokens (items : List JsonText) (v : JsonText) (done : List JsonText)
    (stack : List Level) (ts : List Token) :
    (itemTokens false items ++ .punct ']' :: ts).foldlM Parse.step (.done v (.arr done :: stack)) =
      ts.foldlM Parse.step (.done (.arr (done ++ v :: items)) stack) := by
  cases items with
  | nil => rw [itemTokens]; rfl
  | cons w items =>
    rw [itemTokens, if_neg (by decide), List.append_assoc, List.singleton_append, List.append_assoc]
    have hrest := foldlM_itemTokens items w (done ++ [v]) stack ts
    rw [List.append_assoc, List.singleton_append] at hrest
    exact (foldlM_tokensOf w _ _).trans hrest

theorem foldlM_memberTokens (members : List (JsText × JsonText)) (v : JsonText)
    (done : List (JsText × JsonText)) (key : JsText) (stack : List Level) (ts : List Token) :
    (memberTokens false members ++ .punct '}' :: ts).foldlM Parse.step
        (.done v (.obj done key :: stack)) =
      ts.foldlM Parse.step (.done (.obj (done ++ (key, v) :: members)) stack) := by
  cases members with
  | nil => rw [memberTokens]; rfl
  | cons m members =>
    obtain ⟨next, w⟩ := m
    rw [memberTokens, if_neg (by decide), List.append_assoc, List.singleton_append]
    simp only [List.cons_append, List.append_assoc]
    have hrest := foldlM_memberTokens members w (done ++ [(key, v)]) next stack ts
    rw [List.append_assoc, List.singleton_append] at hrest
    exact (foldlM_tokensOf w _ _).trans hrest

end

/-- A text that is `JSON.stringify`'s but for its strings is read as the value with the strings
that these spell. -/
theorem parse_render {content f : JsText → JsText} {v : JsonText}
    (hspells : ∀ s ∈ strings v, Spells (content s) (f s)) (hnum : Numeric v) :
    parse (render content v) = some (mapStrings f v) := by
  have htokens := tokens_render v [] hspells hnum (by simp [Delimited])
  rw [List.append_nil] at htokens
  have hvalue := foldlM_tokensOf (mapStrings f v) [] []
  rw [parse, htokens]
  simp only [tokens, Scan.finish, Option.map_some, Option.bind_some]
  rw [hvalue]
  rfl

end Values

end SupabaseLab.Library.JsonText
