/-
  CrossProject/Merge.lean --- one page of rows, read from several projects and merged.

  Source: `cmpExact`, `exactCursor`, `pageQuery`, `readLeg` and `fanout` of
  experiments/cross-project-auth/lib/merge.ts.

  A project answers the query text of `pageQuery` as PostgREST does.  Its timestamps
  compare as the instants they denote.  Ids are uuids, as the tables declare them, and
  compare as JavaScript compares their texts.
-/
import SupabaseLab.CrossProject.Timestamp
import SupabaseLab.Library.JsString
import SupabaseLab.Library.Keyset
import SupabaseLab.Library.Postgrest
import SupabaseLab.Library.Uuid

set_option autoImplicit false

namespace SupabaseLab.CrossProject

open Library Library.Postgrest

/-! ## Rows -/

/-- A row with a timestamp that `tsMicros` accepts. -/
structure Row where
  id : Uuid
  createdAt : String
  accepted : (tsMicros createdAt).isSome = true
  deriving DecidableEq

def Row.micros (r : Row) : Int := (tsMicros r.createdAt).get r.accepted

/-- An id stands in a filter as it is: no hex digit and no hyphen ends a value or quotes one. -/
theorem bareText_uuid (u : Uuid) : BareText u.text.toList := by
  have hchars : ∀ c ∈ u.text.toList, c = '-' ∨ isLowerHex c = true := by
    intro c hc
    obtain ⟨i, hi, rfl⟩ := List.mem_iff_getElem.mp hc
    have hchar := u.getElem_text hi
    split at hchar
    · exact .inl (of_decide_eq_true hchar)
    · exact .inr hchar
  have hnot : ∀ c : Char, c ≠ '-' → isLowerHex c = false → c ∉ u.text.toList := by
    intro c hhyphen hhex hc
    obtain h | h := hchars c hc
    · exact hhyphen h
    · rw [hhex] at h
      cases h
  refine ⟨hnot _ (by decide) (by decide), hnot _ (by decide) (by decide), fun hhead => ?_⟩
  exact hnot '"' (by decide) (by decide) (List.mem_of_head? hhead)

def idDesc (a b : Row) : Int :=
  if codeUnits b.id.text < codeUnits a.id.text then -1 else if codeUnits a.id.text < codeUnits b.id.text then 1 else 0

/-- Newest first, microsecond-exact, ties broken by id descending. -/
def cmpExact (a b : Row) : Int :=
  if a.micros ≠ b.micros then (if b.micros < a.micros then -1 else 1) else idDesc a b

structure Cursor where
  createdAt : String
  id : String
  deriving DecidableEq

def exactCursor (r : Row) : Cursor := ⟨r.createdAt, r.id.text⟩

/-! ## Queries -/

structure PageOpts where
  cursor : Option Cursor := none
  /-- An offset of 0 is none. -/
  offset : Nat := 0
  select : String := "id,created_at,body,src"

def keysetTree (c : Cursor) : String :=
  "(created_at.lt.\"" ++ c.createdAt ++ "\",and(created_at.eq.\"" ++ c.createdAt ++ "\",id.lt." ++
    c.id ++ "))"

def pageQuery (limit : Nat) (opts : PageOpts) : String :=
  let q := "select=" ++ opts.select ++ "&order=created_at.desc,id.desc&limit=" ++ toString limit
  let q := match opts.cursor with
    | some c => q ++ "&or=" ++ encodeURIComponent (keysetTree c)
    | none => q
  if opts.offset = 0 then q else q ++ "&offset=" ++ toString opts.offset

/-! ## Legs -/

/-- What a project sends back: a status, and rows where the body is an array of them. -/
structure LegResponse where
  status : Nat
  rows : Option (List Row)

/-- A leg as it is reported; -1 rows and the status 0 stand for no answer. -/
structure Leg where
  status : Nat
  rows : Int
  deriving DecidableEq

/-- `readLeg`; `none` is a fetch that failed or took too long. -/
def readLeg : Option LegResponse → Except Leg (List Row)
  | none => .error ⟨0, -1⟩
  | some res =>
      match res.rows with
      | some rows => if res.status ≠ 200 then .error ⟨res.status, -1⟩ else .ok rows
      | none => .error ⟨res.status, -1⟩

inductive Policy where
  | all
  | settled
  deriving DecidableEq, Repr

structure FanResult where
  ok : Bool
  isPartial : Bool
  rows : List Row

/-- `flatMap`, `sort(cmpExact)` and `slice(0, limit)`. -/
def mergeRows (parts : List (List Row)) (limit : Nat) : List Row :=
  (parts.flatten.mergeSort fun a b => decide (cmpExact a b ≤ 0)).take limit

def okParts (legs : List (Except Leg (List Row))) : List (List Row) :=
  legs.filterMap fun leg => leg.toOption

def fanout (policy : Policy) (legs : List (Except Leg (List Row))) (limit : Nat) : FanResult :=
  match policy with
  | .all =>
      if legs.all fun leg => leg.isOk then ⟨true, false, mergeRows (okParts legs) limit⟩
      else ⟨false, false, []⟩
  | .settled =>
      let ok := legs.all fun leg => leg.isOk
      ⟨ok, !ok && !(okParts legs).isEmpty, mergeRows (okParts legs) limit⟩

section Answered

variable (legs : List (List Row)) (part : List Row → List Row)

/-- Legs that all answer. -/
theorem all_isOk_ok : ((legs.map fun rows => .ok (part rows)) : List (Except Leg (List Row))).all
    (fun leg => leg.isOk) = true := by
  simp [Except.isOk, Except.toBool]

theorem okParts_ok : okParts (legs.map fun rows => .ok (part rows)) = legs.map part := by
  unfold okParts
  rw [List.filterMap_map]
  simp [Function.comp_def, Except.toOption]

end Answered

/-! ## The database -/

open Classical in
/-- The instant that a timestamp text denotes. -/
noncomputable def instantOf (s : String) : Option Int :=
  if h : ∃ n, Denotes s n then some h.choose else none

noncomputable def Row.instant (r : Row) : Int := (instantOf r.createdAt).getD 0

def compareOp {κ : Type} [LinearOrder κ] (op : String) (a b : κ) : Option Bool :=
  match op with
  | "lt" => some (a < b)
  | "lte" => some (a ≤ b)
  | "eq" => some (a = b)
  | "gte" => some (b ≤ a)
  | "gt" => some (b < a)
  | _ => none

def orderOf {κ : Type} [LinearOrder κ] (a b : κ) : Ordering :=
  if a < b then .lt else if b < a then .gt else .eq

/-- A timestamp is compared by its instant, an id by its code units. -/
noncomputable def columns : Columns Row where
  test column op value r :=
    match column with
    | "created_at" => (instantOf value).bind fun n => compareOp op r.instant n
    | "id" => compareOp op (codeUnits r.id.text) (codeUnits value)
    | _ => none
  compare column a b :=
    match column with
    | "created_at" => orderOf a.instant b.instant
    | "id" => orderOf (codeUnits a.id.text) (codeUnits b.id.text)
    | _ => .eq

/-- A project's response; a query that it cannot read or answer is a bad request. -/
noncomputable def respond (rows : List Row) (query : String) : LegResponse :=
  match (parseQuery query).bind (answer columns rows) with
  | some found => ⟨200, some found⟩
  | none => ⟨400, none⟩

/-! ## What the query text says -/

section Query

variable {limit : Nat} {c : Cursor} {r : Row}

/-- The rows after the cursor, as a filter. -/
def keysetFilter (c : Cursor) : Filter :=
  .any [.cond "created_at" "lt" c.createdAt,
    .all [.cond "created_at" "eq" c.createdAt, .cond "id" "lt" c.id]]

/-- The query that `pageQuery` writes. -/
def pageRead (limit : Nat) (filters : List Filter) : Query where
  select := ["id", "created_at", "body", "src"]
  order := [⟨"created_at", true⟩, ⟨"id", true⟩]
  limit := some limit
  filters := filters

theorem toString_isDigit (n : Nat) : ∀ ch ∈ (toString n).toList, ch.isDigit = true := by
  intro ch hch
  rw [Nat.toString_eq_repr, Nat.toList_repr] at hch
  exact Nat.isDigit_of_mem_toDigits (by decide) (by decide) hch

theorem parseNat_toString (n : Nat) : parseNat (toString n) = some n := by
  have htext : (toString n).toList = Nat.toDigits 10 n := by
    rw [Nat.toString_eq_repr, Nat.toList_repr]
  have hdigits : (Nat.toDigits 10 n).all Char.isDigit = true := List.all_eq_true.mpr fun ch hch =>
    Nat.isDigit_of_mem_toDigits (by decide) (by decide) hch
  unfold parseNat
  rw [htext, if_pos ⟨Nat.toDigits_ne_nil, hdigits⟩, Nat.ofDigitChars_ten_toDigits]

/-- Digits mean themselves in a query. -/
theorem decodeText_toString (n : Nat) : decodeText (toString n).toList = some (toString n) := by
  have hplain : ∀ ch ∈ (toString n).toList, ch.toNat < 128 ∧ ch ≠ '%' ∧ ch ≠ '+' := by
    intro ch hch
    have hdigit := toString_isDigit n ch hch
    unfold Char.isDigit at hdigit
    rw [Bool.and_eq_true, decide_eq_true_eq, decide_eq_true_eq] at hdigit
    have hle : ch.toNat ≤ 57 := UInt32.le_iff_toNat_le.mp hdigit.2
    have hge : 48 ≤ ch.toNat := UInt32.le_iff_toNat_le.mp hdigit.1
    refine ⟨by omega, ?_, ?_⟩
    · rintro rfl
      exact absurd hge (by decide)
    · rintro rfl
      exact absurd hge (by decide)
  rw [decodeText_plain hplain, String.ofList_toList]

/-- The tree is a text of the grammar when the timestamp needs no escapes. -/
theorem keysetTree_written (hquote : QuotableText c.createdAt.toList) (hbare : BareText c.id.toList) :
    ∃ text, (keysetTree c).toList = '(' :: (text ++ [')']) ∧
      WrittenAll text [.cond "created_at" "lt" c.createdAt,
        .all [.cond "created_at" "eq" c.createdAt, .cond "id" "lt" c.id]] := by
  have hcreated : NameText "created_at".toList := ⟨by decide, by decide⟩
  have hid : NameText "id".toList := ⟨by decide, by decide⟩
  have hlt : NameText "lt".toList := ⟨by decide, by decide⟩
  have heq : NameText "eq".toList := ⟨by decide, by decide⟩
  have hwritten := WrittenAll.cons (.quoted hcreated hlt hquote)
    (.one (.all (.cons (.quoted hcreated heq hquote) (.one (.bare hid hlt hbare)))))
  simp only [String.ofList_toList] at hwritten
  refine ⟨_, ?_, hwritten⟩
  have hopen : "(created_at.lt.\"".toList =
      '(' :: ("created_at".toList ++ '.' :: ("lt".toList ++ ['.', '"'])) := rfl
  have hand : "\",and(created_at.eq.\"".toList =
      '"' :: ',' :: ("and(".toList ++ ("created_at".toList ++ '.' :: ("eq".toList ++ ['.', '"']))) := rfl
  have hids : "\",id.lt.".toList = '"' :: ',' :: ("id".toList ++ '.' :: ("lt".toList ++ ['.'])) := rfl
  have hclose : "))".toList = [')', ')'] := rfl
  unfold keysetTree
  simp only [String.toList_append, hopen, hand, hids, hclose, List.append_assoc, List.cons_append,
    List.nil_append]

theorem parseTree_keysetTree (hquote : QuotableText c.createdAt.toList) (hbare : BareText c.id.toList) :
    parseTree (keysetTree c) = some [.cond "created_at" "lt" c.createdAt,
      .all [.cond "created_at" "eq" c.createdAt, .cond "id" "lt" c.id]] := by
  obtain ⟨text, htext, hwritten⟩ := keysetTree_written hquote hbare
  have hfuel : text.length + 1 ≤ (text ++ [')']).length + 1 := by
    rw [List.length_append]
    omega
  have hparse := parseFilters_written hwritten hfuel []
  simp only [parseTree, htext, hparse]

theorem decodeText_word (word : String) (h : (word.toList.all fun ch => ch.toNat < 128 && ch ≠ '%' &&
    ch ≠ '+') = true) : decodeText word.toList = some word := by
  have hplain : ∀ ch ∈ word.toList, ch.toNat < 128 ∧ ch ≠ '%' ∧ ch ≠ '+' := by
    intro ch hch
    simpa [and_assoc] using List.all_eq_true.mp h ch hch
  rw [decodeText_plain hplain, String.ofList_toList]

/-- A pair of the query string. -/
def pairText (name value : String) : List Char := name.toList ++ '=' :: value.toList

theorem splitPair_pairText {name : String} (value : String) (h : '=' ∉ name.toList) :
    splitPair (pairText name value) = (name.toList, value.toList) :=
  splitPair_append _ h

/-- The pairs that a query of `pageQuery` is made of. -/
def pagePairs (limit : Nat) (cursor : Option Cursor) : List (String × String) :=
  [("select", "id,created_at,body,src"), ("order", "created_at.desc,id.desc"),
    ("limit", toString limit)] ++
    match cursor with
    | some c => [("or", encodeURIComponent (keysetTree c))]
    | none => []

theorem pageQuery_toList (limit : Nat) (cursor : Option Cursor) :
    (pageQuery limit { cursor := cursor }).toList =
      ['&'].intercalate ((pagePairs limit cursor).map fun nv => pairText nv.1 nv.2) := by
  have hopen : "select=".toList = "select".toList ++ ['='] := rfl
  have horder : "&order=created_at.desc,id.desc&limit=".toList =
      '&' :: ("order".toList ++ '=' :: ("created_at.desc,id.desc".toList ++ '&' :: ("limit".toList ++ ['=']))) :=
    rfl
  have hor : "&or=".toList = '&' :: ("or".toList ++ ['=']) := rfl
  cases cursor with
  | none =>
    unfold pageQuery pagePairs
    simp only [String.toList_append, hopen, horder, if_pos, List.append_nil, List.map_cons, List.map_nil,
      pairText]
    simp [List.intercalate, List.intersperse]
  | some c =>
    unfold pageQuery pagePairs
    simp only [String.toList_append, hopen, horder, hor, if_pos, List.map_append, List.map_cons,
      List.map_nil, pairText]
    simp [List.intercalate, List.intersperse]

/-- No pair has a separator in it. -/
theorem ampersand_notMem_pagePairs (limit : Nat) (cursor : Option Cursor) :
    ∀ part ∈ (pagePairs limit cursor).map fun nv => pairText nv.1 nv.2, '&' ∉ part := by
  have hpair : ∀ name value : String, '&' ∉ name.toList → '&' ∉ value.toList →
      '&' ∉ pairText name value := by
    intro name value hname hvalue
    unfold pairText
    simp [hname, hvalue]
  have hlimit : '&' ∉ (toString limit).toList := fun h => absurd (toString_isDigit limit _ h) (by decide)
  intro part hpart
  obtain ⟨⟨name, value⟩, hnv, rfl⟩ := List.mem_map.mp hpart
  unfold pagePairs at hnv
  obtain hnv | hnv := List.mem_append.mp hnv
  · simp only [List.mem_cons, List.not_mem_nil, or_false, Prod.mk.injEq] at hnv
    obtain ⟨rfl, rfl⟩ | ⟨rfl, rfl⟩ | ⟨rfl, rfl⟩ := hnv
    · exact hpair _ _ (by decide) (by decide)
    · exact hpair _ _ (by decide) (by decide)
    · exact hpair "limit" _ (by decide) hlimit
  · cases cursor with
    | none => cases hnv
    | some c =>
      obtain ⟨rfl, rfl⟩ := Prod.mk.inj (List.mem_singleton.mp hnv)
      exact hpair "or" _ (by decide) (separator_notMem_encodeURIComponent _ (.inl rfl))

theorem queryPairs_pageQuery (limit : Nat) (cursor : Option Cursor) :
    queryPairs (pageQuery limit { cursor := cursor }) =
      (pagePairs limit cursor).map fun nv => (nv.1.toList, nv.2.toList) := by
  have hne : ((pagePairs limit cursor).map fun nv => pairText nv.1 nv.2) ≠ [] := by
    unfold pagePairs
    simp
  unfold queryPairs
  rw [pageQuery_toList, List.splitOn_intercalate '&' (ampersand_notMem_pagePairs limit cursor) hne,
    List.map_map]
  refine List.map_congr_left fun nv hnv => splitPair_pairText nv.2 ?_
  have hname : nv.1 ∈ ["select", "order", "limit", "or"] := by
    unfold pagePairs at hnv
    cases cursor with
    | none =>
      simp only [List.append_nil, List.mem_cons, List.not_mem_nil, or_false] at hnv
      obtain rfl | rfl | rfl := hnv <;> simp
    | some c =>
      simp only [List.cons_append, List.nil_append, List.mem_cons, List.not_mem_nil, or_false] at hnv
      obtain rfl | rfl | rfl | rfl := hnv <;> simp
  simp only [List.mem_cons, List.not_mem_nil, or_false] at hname
  obtain h | h | h | h := hname <;> rw [h] <;> decide

theorem parsePairs_cons {q q' : Query} {name value v : String} {pairs : List (List Char × List Char)}
    (hname : decodeText name.toList = some name) (hvalue : decodeText value.toList = some v)
    (hparam : parseParam q name v = some q') :
    parsePairs q ((name.toList, value.toList) :: pairs) = parsePairs q' pairs := by
  rw [parsePairs, hname, Option.bind_some, hvalue, Option.bind_some, hparam, Option.bind_some]

theorem parseParam_select (q : Query) : parseParam q "select" "id,created_at,body,src" =
    some { q with select := ["id", "created_at", "body", "src"] } := rfl

theorem parseParam_order (q : Query) : parseParam q "order" "created_at.desc,id.desc" =
    some { q with order := [⟨"created_at", true⟩, ⟨"id", true⟩] } := rfl

theorem parseParam_limit (q : Query) (limit : Nat) :
    parseParam q "limit" (toString limit) = some { q with limit := some limit } := by
  have hread : parseParam q "limit" (toString limit) =
      (parseNat (toString limit)).map fun n => { q with limit := some n } := rfl
  rw [hread, parseNat_toString]
  rfl

theorem parseParam_or (q : Query) (hquote : QuotableText c.createdAt.toList)
    (hbare : BareText c.id.toList) :
    parseParam q "or" (keysetTree c) = some { q with filters := q.filters ++ [keysetFilter c] } := by
  simp [parseParam, parseTree_keysetTree hquote hbare, keysetFilter]

/-- The parameters that all pages have. -/
theorem parsePairs_page (limit : Nat) (pairs : List (List Char × List Char)) :
    parsePairs {} (("select".toList, "id,created_at,body,src".toList) ::
      ("order".toList, "created_at.desc,id.desc".toList) ::
      ("limit".toList, (toString limit).toList) :: pairs) = parsePairs (pageRead limit []) pairs := by
  rw [parsePairs_cons (decodeText_word _ (by decide)) (decodeText_word _ (by decide))
      (parseParam_select _),
    parsePairs_cons (decodeText_word _ (by decide)) (decodeText_word _ (by decide))
      (parseParam_order _),
    parsePairs_cons (decodeText_word _ (by decide)) (decodeText_toString _) (parseParam_limit _ _)]
  rfl

/-- The first page. -/
theorem parseQuery_first (limit : Nat) :
    parseQuery (pageQuery limit {}) = some (pageRead limit []) := by
  have hpairs := queryPairs_pageQuery limit none
  unfold parseQuery
  rw [hpairs]
  exact parsePairs_page limit []

/-- A page after a cursor. -/
theorem parseQuery_next (limit : Nat) (hquote : QuotableText c.createdAt.toList)
    (hbare : BareText c.id.toList) :
    parseQuery (pageQuery limit { cursor := some c }) = some (pageRead limit [keysetFilter c]) := by
  have hpairs := queryPairs_pageQuery limit (some c)
  unfold parseQuery
  rw [hpairs]
  refine (parsePairs_page limit _).trans ?_
  exact parsePairs_cons (decodeText_word "or" (by decide)) (decodeText_encodeURIComponent _)
    (parseParam_or _ hquote hbare)

end Query

end SupabaseLab.CrossProject
