/-
  Library/JsonText.lean --- `JSON.parse`, over the code units of a text.

  A scanner cuts the text into tokens and a stack machine builds the value from
  them, one token at a time.  A number keeps its digits as they are written, and
  an object its members in order, the last of a key being the one that is read.

  Characters that are no ASCII stand only inside strings, so texts that differ in
  such characters alone (`Blur`) parse to values that do (`JsonText.Like`).
-/
import SupabaseLab.Library.Utf8

set_option autoImplicit false

namespace SupabaseLab.Library

inductive JsonText where
  | null
  | bool (b : Bool)
  /-- A number, as it is written. -/
  | num (digits : JsText)
  | str (s : JsText)
  | arr (items : List JsonText)
  | obj (members : List (JsText × JsonText))

namespace JsonText

/-! ## Tokens -/

inductive Token where
  | punct (c : Char)
  | word (s : JsText)
  | num (s : JsText)
  | str (s : JsText)
  deriving DecidableEq

/-- Where the scanner stands; what it has read of a token is kept backwards. -/
inductive Scan where
  | idle
  | word (acc : JsText)
  | num (acc : JsText)
  | str (acc : JsText)
  | escape (acc : JsText)
  | hex (acc : JsText) (count value : Nat)

def isSpace (u : Nat) : Bool := u = 32 || u = 9 || u = 10 || u = 13

def isDigitUnit (u : Nat) : Bool := 48 ≤ u && u ≤ 57

def isLowerUnit (u : Nat) : Bool := 97 ≤ u && u ≤ 122

/-- A unit that a number may go on with. -/
def isNumberUnit (u : Nat) : Bool :=
  isDigitUnit u || ['+', '-', '.', 'e', 'E'].any fun c => c.toNat = u

/-- One digit or more, and what follows. -/
def digits : JsText → Option JsText
  | [] => none
  | u :: s => if isDigitUnit u then some (s.dropWhile isDigitUnit) else none

/-- No number but 0 begins with a 0. -/
def intPart : JsText → Option JsText
  | [] => none
  | u :: s => if u = '0'.toNat then some s else digits (u :: s)

def fraction : JsText → Option JsText
  | [] => some []
  | u :: s => if u = '.'.toNat then digits s else some (u :: s)

def exponent : JsText → Option JsText
  | [] => some []
  | u :: s =>
      if u = 'e'.toNat ∨ u = 'E'.toNat then
        digits (if s.head? = some '+'.toNat ∨ s.head? = some '-'.toNat then s.tail else s)
      else some (u :: s)

def isNumber (s : JsText) : Bool :=
  let s := if s.head? = some '-'.toNat then s.tail else s
  (((intPart s).bind fraction).bind exponent) = some []

def wordToken (acc : JsText) : Option Token :=
  if acc.reverse = units "true" ∨ acc.reverse = units "false" ∨ acc.reverse = units "null" then
    some (.word acc.reverse)
  else none

def numToken (acc : JsText) : Option Token :=
  if isNumber acc.reverse then some (.num acc.reverse) else none

/-- A unit between tokens. -/
def start (u : Nat) : Option (List Token × Scan) :=
  if isSpace u then some ([], .idle)
  else if u = '"'.toNat then some ([], .str [])
  else if isDigitUnit u || u = '-'.toNat then some ([], .num [u])
  else if isLowerUnit u then some ([], .word [u])
  else (['{', '}', '[', ']', ':', ','].find? fun c => c.toNat = u).map fun c => ([.punct c], .idle)

/-- The unit that `\` and one character stand for. -/
def escaped (u : Nat) : Option Nat :=
  if u = '"'.toNat ∨ u = '\\'.toNat ∨ u = '/'.toNat then some u
  else if u = 'b'.toNat then some 8
  else if u = 'f'.toNat then some 12
  else if u = 'n'.toNat then some 10
  else if u = 'r'.toNat then some 13
  else if u = 't'.toNat then some 9
  else none

/-- A token ends before a unit that does not belong to it. -/
def before (t : Token) (u : Nat) : Option (List Token × Scan) :=
  (start u).map fun r => (t :: r.1, r.2)

def Scan.step : Scan → Nat → Option (List Token × Scan)
  | .idle, u => start u
  | .word acc, u =>
      if isLowerUnit u then some ([], .word (u :: acc)) else (wordToken acc).bind (before · u)
  | .num acc, u =>
      if isNumberUnit u then some ([], .num (u :: acc)) else (numToken acc).bind (before · u)
  | .str acc, u =>
      if u = '"'.toNat then some ([.str acc.reverse], .idle)
      else if u = '\\'.toNat then some ([], .escape acc)
      else if u < 32 then none
      else some ([], .str (u :: acc))
  | .escape acc, u =>
      if u = 'u'.toNat then some ([], .hex acc 0 0)
      else (escaped u).map fun e => ([], .str (e :: acc))
  | .hex acc count value, u => (hexDigit? u).map fun d =>
      if count = 3 then ([], .str ((16 * value + d) :: acc))
      else ([], .hex acc (count + 1) (16 * value + d))

def Scan.finish : Scan → Option (List Token)
  | .idle => some []
  | .word acc => (wordToken acc).map ([·])
  | .num acc => (numToken acc).map ([·])
  | _ => none

def tokens : Scan → JsText → Option (List Token)
  | scan, [] => scan.finish
  | scan, u :: s => (scan.step u).bind fun r => (tokens r.2 s).map (r.1 ++ ·)

/-! ## Values -/

/-- An array or an object that is not closed yet; in an object the key of the value to come. -/
inductive Level where
  | arr (items : List JsonText)
  | obj (members : List (JsText × JsonText)) (key : JsText)

inductive Parse where
  | value (stack : List Level)
  /-- After `[`. -/
  | item (stack : List Level)
  /-- `first` after `{`. -/
  | key (first : Bool) (members : List (JsText × JsonText)) (stack : List Level)
  | colon (members : List (JsText × JsonText)) (key : JsText) (stack : List Level)
  | done (v : JsonText) (stack : List Level)

def wordValue (s : JsText) : JsonText :=
  if s = units "null" then .null else .bool (s = units "true")

/-- The token a value begins with. -/
def beginValue (stack : List Level) : Token → Option Parse
  | .word s => some (.done (wordValue s) stack)
  | .num s => some (.done (.num s) stack)
  | .str s => some (.done (.str s) stack)
  | .punct c =>
      if c = '[' then some (.item stack) else if c = '{' then some (.key true [] stack) else none

def Parse.step : Parse → Token → Option Parse
  | .value stack, t => beginValue stack t
  | .item stack, t =>
      if t = .punct ']' then some (.done (.arr []) stack) else beginValue (.arr [] :: stack) t
  | .key _ members stack, .str k => some (.colon members k stack)
  | .key first members stack, .punct c =>
      if first = true ∧ c = '}' then some (.done (.obj members) stack) else none
  | .key .., _ => none
  | .colon members k stack, t =>
      if t = .punct ':' then some (.value (.obj members k :: stack)) else none
  | .done v (.arr items :: stack), t =>
      if t = .punct ',' then some (.value (.arr (items ++ [v]) :: stack))
      else if t = .punct ']' then some (.done (.arr (items ++ [v])) stack)
      else none
  | .done v (.obj members k :: stack), t =>
      if t = .punct ',' then some (.key false (members ++ [(k, v)]) stack)
      else if t = .punct '}' then some (.done (.obj (members ++ [(k, v)])) stack)
      else none
  | .done _ [], _ => none

def Parse.result : Parse → Option JsonText
  | .done v [] => some v
  | _ => none

/-- `JSON.parse`; `none` when it throws. -/
def parse (s : JsText) : Option JsonText :=
  (tokens .idle s).bind fun ts => (ts.foldlM Parse.step (.value [])).bind Parse.result

/-! ## Reading -/

/-- The member that a key names: the last one written. -/
def member (key : JsText) (members : List (JsText × JsonText)) : Option JsonText :=
  members.foldl (fun found m => if m.1 = key then some m.2 else found) none

/-- `value.key`: `none` when reading it throws, `some none` for `undefined`. -/
def get? (key : JsText) : JsonText → Option (Option JsonText)
  | .null => none
  | .obj members => some (member key members)
  | _ => some none

/-! ## Values that differ in characters that are no ASCII -/

/-- The same string, or two strings that both have a unit beyond ASCII. -/
def Alike (s t : JsText) : Prop := s = t ∨ (∃ u ∈ s, 128 ≤ u) ∧ ∃ u ∈ t, 128 ≤ u

inductive Like : JsonText → JsonText → Prop
  | same (v : JsonText) : Like v v
  | str {s t : JsText} (h : Alike s t) : Like (.str s) (.str t)
  | arr {items items' : List JsonText} (h : List.Forall₂ Like items items') :
      Like (.arr items) (.arr items')
  | obj {members members' : List (JsText × JsonText)}
      (hkeys : List.Forall₂ Alike (members.map Prod.fst) (members'.map Prod.fst))
      (hvalues : List.Forall₂ Like (members.map Prod.snd) (members'.map Prod.snd)) :
      Like (.obj members) (.obj members')

inductive Token.Like : Token → Token → Prop
  | same (t : Token) : Token.Like t t
  | str {s t : JsText} (h : Alike s t) : Token.Like (.str s) (.str t)

inductive Scan.Like : Scan → Scan → Prop
  | same (scan : Scan) : Scan.Like scan scan
  | str {s t : JsText} (h : Alike s t) : Scan.Like (.str s) (.str t)
  | escape {s t : JsText} (h : Alike s t) : Scan.Like (.escape s) (.escape t)
  | hex {s t : JsText} (h : Alike s t) (count value : Nat) :
      Scan.Like (.hex s count value) (.hex t count value)

section Scanner

variable {s t acc acc' : JsText} {u : Nat} {scan scan' next : Scan} {ts : List Token}

theorem Alike.refl (s : JsText) : Alike s s := .inl rfl

theorem Alike.cons (u : Nat) (h : Alike s t) : Alike (u :: s) (u :: t) := by
  obtain rfl | ⟨⟨v, hv, hwide⟩, w, hw, hwide'⟩ := h
  · exact .refl _
  · exact .inr ⟨⟨v, .tail _ hv, hwide⟩, w, .tail _ hw, hwide'⟩

theorem Alike.reverse (h : Alike s t) : Alike s.reverse t.reverse := by
  obtain rfl | ⟨⟨v, hv, hwide⟩, w, hw, hwide'⟩ := h
  · exact .refl _
  · exact .inr ⟨⟨v, List.mem_reverse.mpr hv, hwide⟩, w, List.mem_reverse.mpr hw, hwide'⟩

/-- A string of ASCII is like no other. -/
theorem Alike.eq_iff (h : Alike s t) {key : JsText} (hkey : ∀ u ∈ key, u < 128) :
    s = key ↔ t = key := by
  obtain rfl | ⟨⟨v, hv, hwide⟩, w, hw, hwide'⟩ := h
  · exact Iff.rfl
  · refine iff_of_false ?_ ?_
    · rintro rfl
      exact absurd (hkey v hv) (Nat.not_lt.mpr hwide)
    · rintro rfl
      exact absurd (hkey w hw) (Nat.not_lt.mpr hwide')

theorem forall₂_like_refl (ts : List Token) : List.Forall₂ Token.Like ts ts :=
  List.forall₂_same.mpr fun t _ => .same t

theorem Scan.Like.step (h : Scan.Like scan scan') (hstep : scan.step u = some (ts, next)) :
    ∃ ts' next', scan'.step u = some (ts', next') ∧ List.Forall₂ Token.Like ts ts' ∧
      Scan.Like next next' := by
  cases h with
  | same => exact ⟨ts, next, hstep, forall₂_like_refl ts, .same next⟩
  | @str s t h =>
    simp only [Scan.step] at hstep ⊢
    split_ifs at hstep ⊢
    · cases hstep
      exact ⟨_, _, rfl, .cons (.str h.reverse) .nil, .same _⟩
    · cases hstep
      exact ⟨_, _, rfl, .nil, .escape h⟩
    · cases hstep
      exact ⟨_, _, rfl, .nil, .str (h.cons u)⟩
  | @escape s t h =>
    simp only [Scan.step] at hstep ⊢
    split_ifs at hstep ⊢
    · cases hstep
      exact ⟨_, _, rfl, .nil, .hex h 0 0⟩
    · obtain ⟨e, he, heq⟩ := Option.map_eq_some_iff.mp hstep
      cases heq
      exact ⟨_, _, by rw [he]; rfl, .nil, .str (h.cons e)⟩
  | @hex s t h count value =>
    simp only [Scan.step] at hstep ⊢
    obtain ⟨d, hd, heq⟩ := Option.map_eq_some_iff.mp hstep
    rw [hd]
    split_ifs at heq with hcount
    · cases heq
      exact ⟨_, _, by simp [hcount], .nil, .str (h.cons _)⟩
    · cases heq
      exact ⟨_, _, by simp [hcount], .nil, .hex h _ _⟩

theorem start_wide (h : 128 ≤ u) : start u = none := by
  have hspace : isSpace u = false := by simp [isSpace]; omega
  have hquote : u ≠ '"'.toNat := by simp; omega
  have hnumber : (isDigitUnit u || u = '-'.toNat) = false := by simp [isDigitUnit]; omega
  have hlower : isLowerUnit u = false := by simp [isLowerUnit]; omega
  have hpunct : (['{', '}', '[', ']', ':', ','].find? fun c => c.toNat = u) = none := by
    simp
    omega
  simp only [start, hspace, hquote, hnumber, hlower, hpunct]
  rfl

/-- Only a string holds a character that is no ASCII. -/
theorem Scan.step_wide (h : 128 ≤ u) (hstep : scan.step u = some (ts, next)) :
    ∃ acc, scan = .str acc := by
  have hstart := start_wide h
  cases scan with
  | str acc => exact ⟨acc, rfl⟩
  | idle => simp [Scan.step, hstart] at hstep
  | word acc =>
    have hlower : isLowerUnit u = false := by simp [isLowerUnit]; omega
    simp [Scan.step, hlower, before, hstart] at hstep
  | num acc =>
    have hnumber : isNumberUnit u = false := by simp [isNumberUnit, isDigitUnit]; omega
    simp [Scan.step, hnumber, before, hstart] at hstep
  | escape acc =>
    have hu : u ≠ 'u'.toNat := by simp; omega
    have hescaped : escaped u = none := by
      rw [escaped, if_neg (by simp; omega), if_neg (by simp; omega), if_neg (by simp; omega),
        if_neg (by simp; omega), if_neg (by simp; omega), if_neg (by simp; omega)]
    rw [Scan.step, if_neg hu, hescaped] at hstep
    simp at hstep
  | hex acc count value =>
    have hdigit : hexDigit? u = none := by
      rw [hexDigit?, if_neg (by omega), if_neg (by omega), if_neg (by omega)]
    simp [Scan.step, hdigit] at hstep

theorem tokens_str_wide {a : JsText} (h : ∀ u ∈ a, 128 ≤ u) (acc s : JsText) :
    tokens (.str acc) (a ++ s) = tokens (.str (a.reverse ++ acc)) s := by
  induction a generalizing acc with
  | nil => rfl
  | cons u a ih =>
    obtain ⟨hu, ha⟩ := List.forall_mem_cons.mp h
    have hquote : u ≠ '"'.toNat := by simp; omega
    have hback : u ≠ '\\'.toNat := by simp; omega
    have hstep : (Scan.str acc).step u = some ([], .str (u :: acc)) := by
      simp only [Scan.step, hquote, hback, if_false, Nat.not_lt.mpr (by omega : 32 ≤ u)]
    rw [List.cons_append, tokens, hstep]
    simp [ih ha]

theorem tokens_like (hblur : Blur s t) (hscan : Scan.Like scan scan')
    (h : tokens scan s = some ts) : ∃ ts', tokens scan' t = some ts' ∧ List.Forall₂ Token.Like ts ts' := by
  induction hblur generalizing scan scan' ts with
  | nil =>
    cases hscan with
    | same => exact ⟨ts, h, forall₂_like_refl ts⟩
    | _ => simp [tokens, Scan.finish] at h
  | @same s t u _ ih =>
    obtain ⟨⟨before, next⟩, hstep, hrest⟩ := Option.bind_eq_some_iff.mp h
    obtain ⟨after, hafter, rfl⟩ := Option.map_eq_some_iff.mp hrest
    obtain ⟨before', next', hstep', hbefore, hnext⟩ := hscan.step hstep
    obtain ⟨after', hafter', hlike⟩ := ih hnext hafter
    refine ⟨before' ++ after', ?_, List.rel_append hbefore hlike⟩
    simp [tokens, hstep', hafter']
  | @lost s t a b ha hb hall hall' _ ih =>
    obtain ⟨u, a', rfl⟩ := List.exists_cons_of_ne_nil ha
    obtain ⟨⟨before, next⟩, hstep, -⟩ := Option.bind_eq_some_iff.mp h
    obtain ⟨acc, rfl⟩ := Scan.step_wide (hall u (.head _)) hstep
    obtain ⟨acc', rfl⟩ : ∃ acc', scan' = .str acc' := by
      cases hscan with
      | same => exact ⟨acc, rfl⟩
      | str => exact ⟨_, rfl⟩
    rw [tokens_str_wide hall] at h
    rw [tokens_str_wide hall']
    obtain ⟨v, hv⟩ := List.exists_mem_of_ne_nil _ hb
    refine ih (.str (.inr ⟨⟨u, by simp, hall u (.head _)⟩, v, by simp [hv], hall' v hv⟩)) h

end Scanner

/-! ## Parsing texts that are alike -/

inductive Level.Like : Level → Level → Prop
  | arr {items items' : List JsonText} (h : List.Forall₂ JsonText.Like items items') :
      Level.Like (.arr items) (.arr items')
  | obj {members members' : List (JsText × JsonText)} {key key' : JsText}
      (h : JsonText.Like (.obj members) (.obj members')) (hkey : Alike key key') :
      Level.Like (.obj members key) (.obj members' key')

inductive Parse.Like : Parse → Parse → Prop
  | value {stack stack' : List Level} (h : List.Forall₂ Level.Like stack stack') :
      Parse.Like (.value stack) (.value stack')
  | item {stack stack' : List Level} (h : List.Forall₂ Level.Like stack stack') :
      Parse.Like (.item stack) (.item stack')
  | key {first : Bool} {members members' : List (JsText × JsonText)} {stack stack' : List Level}
      (hmembers : JsonText.Like (.obj members) (.obj members'))
      (h : List.Forall₂ Level.Like stack stack') :
      Parse.Like (.key first members stack) (.key first members' stack')
  | colon {members members' : List (JsText × JsonText)} {k k' : JsText} {stack stack' : List Level}
      (hmembers : JsonText.Like (.obj members) (.obj members')) (hkey : Alike k k')
      (h : List.Forall₂ Level.Like stack stack') :
      Parse.Like (.colon members k stack) (.colon members' k' stack')
  | done {v v' : JsonText} {stack stack' : List Level} (hv : JsonText.Like v v')
      (h : List.Forall₂ Level.Like stack stack') : Parse.Like (.done v stack) (.done v' stack')

section Parser

variable {s t : JsText} {tok tok' : Token} {p p' q : Parse} {stack stack' : List Level}
  {members members' : List (JsText × JsonText)} {v v' : JsonText}

theorem Like.obj_concat {k k' : JsText} (h : Like (.obj members) (.obj members')) (hkey : Alike k k')
    (hv : Like v v') : Like (.obj (members ++ [(k, v)])) (.obj (members' ++ [(k', v')])) := by
  have hparts : List.Forall₂ Alike (members.map Prod.fst) (members'.map Prod.fst) ∧
      List.Forall₂ Like (members.map Prod.snd) (members'.map Prod.snd) := by
    cases h with
    | same => exact ⟨List.forall₂_same.mpr fun s _ => .refl s, List.forall₂_same.mpr fun v _ => .same v⟩
    | obj hkeys hvalues => exact ⟨hkeys, hvalues⟩
  refine .obj ?_ ?_
  · simpa using List.rel_append hparts.1 (.cons hkey .nil)
  · simpa using List.rel_append hparts.2 (.cons hv .nil)

theorem Token.Like.punct_iff (h : Token.Like tok tok') (c : Char) :
    tok = .punct c ↔ tok' = .punct c := by
  cases h with
  | same => exact Iff.rfl
  | str => simp

theorem beginValue_like (hstack : List.Forall₂ Level.Like stack stack') (htok : Token.Like tok tok')
    (h : beginValue stack tok = some q) : ∃ q', beginValue stack' tok' = some q' ∧ Parse.Like q q' := by
  cases htok with
  | str hs =>
    cases h
    exact ⟨_, rfl, .done (.str hs) hstack⟩
  | same =>
    cases tok with
    | punct c =>
      simp only [beginValue] at h ⊢
      split_ifs at h ⊢
      · cases h
        exact ⟨_, rfl, .item hstack⟩
      · cases h
        exact ⟨_, rfl, .key (.same _) hstack⟩
    | _ =>
      cases h
      exact ⟨_, rfl, .done (.same _) hstack⟩

theorem Parse.Like.step (hp : Parse.Like p p') (htok : Token.Like tok tok')
    (h : p.step tok = some q) : ∃ q', p'.step tok' = some q' ∧ Parse.Like q q' := by
  have hpunct := htok.punct_iff
  cases hp with
  | value hstack => exact beginValue_like hstack htok h
  | item hstack =>
    simp only [Parse.step, hpunct] at h ⊢
    split_ifs at h ⊢
    · cases h
      exact ⟨_, rfl, .done (.same _) hstack⟩
    · exact beginValue_like (.cons (.arr .nil) hstack) htok h
  | key hmembers hstack =>
    cases htok with
    | str hs =>
      cases h
      exact ⟨_, rfl, .colon hmembers hs hstack⟩
    | same =>
      cases tok with
      | str k =>
        cases h
        exact ⟨_, rfl, .colon hmembers (.refl k) hstack⟩
      | punct c =>
        simp only [Parse.step] at h ⊢
        split_ifs at h ⊢
        cases h
        exact ⟨_, rfl, .done hmembers hstack⟩
      | _ => simp [Parse.step] at h
  | colon hmembers hkey hstack =>
    simp only [Parse.step, hpunct] at h ⊢
    split_ifs at h ⊢
    cases h
    exact ⟨_, rfl, .value (.cons (.obj hmembers hkey) hstack)⟩
  | done hv hstack =>
    cases hstack with
    | nil => simp [Parse.step] at h
    | cons hlevel hrest =>
      cases hlevel with
      | arr hitems =>
        simp only [Parse.step, hpunct] at h ⊢
        split_ifs at h ⊢
        · cases h
          exact ⟨_, rfl, .value (.cons (.arr (List.rel_append hitems (.cons hv .nil))) hrest)⟩
        · cases h
          exact ⟨_, rfl, .done (.arr (List.rel_append hitems (.cons hv .nil))) hrest⟩
      | obj hmembers hkey =>
        simp only [Parse.step, hpunct] at h ⊢
        split_ifs at h ⊢
        · cases h
          exact ⟨_, rfl, .key (hmembers.obj_concat hkey hv) hrest⟩
        · cases h
          exact ⟨_, rfl, .done (hmembers.obj_concat hkey hv) hrest⟩

theorem foldlM_like {ts ts' : List Token} (hts : List.Forall₂ Token.Like ts ts') (hp : Parse.Like p p')
    (h : ts.foldlM Parse.step p = some q) :
    ∃ q', ts'.foldlM Parse.step p' = some q' ∧ Parse.Like q q' := by
  induction hts generalizing p p' with
  | nil =>
    cases h
    exact ⟨p', rfl, hp⟩
  | cons htok _ ih =>
    rw [List.foldlM_cons] at h
    obtain ⟨m, hm, hrest⟩ := Option.bind_eq_some_iff.mp h
    obtain ⟨m', hm', hlike⟩ := hp.step htok hm
    obtain ⟨q', hq', hlike'⟩ := ih hlike hrest
    exact ⟨q', by rw [List.foldlM_cons, hm']; exact hq', hlike'⟩

/-- What parses goes on parsing when characters that are no ASCII get lost. -/
theorem parse_like (hblur : Blur s t) (h : parse s = some v) : ∃ v', parse t = some v' ∧ Like v v' := by
  obtain ⟨ts, hts, hfold⟩ := Option.bind_eq_some_iff.mp h
  obtain ⟨q, hq, hresult⟩ := Option.bind_eq_some_iff.mp hfold
  obtain ⟨ts', hts', hlike⟩ := tokens_like hblur (.same .idle) hts
  obtain ⟨q', hq', hqlike⟩ := foldlM_like hlike (.value .nil) hq
  simp only [parse, hts', hq', Option.bind_some]
  cases hqlike with
  | done hv hstack =>
    cases hstack with
    | nil =>
      cases hresult
      exact ⟨_, rfl, hv⟩
    | cons => simp [Parse.result] at hresult
  | _ => simp [Parse.result] at hresult

/-- A member whose name is ASCII is there in both. -/
theorem member_like {key : JsText} (hkey : ∀ u ∈ key, u < 128)
    (h : Like (.obj members) (.obj members')) :
    Option.Rel Like (member key members) (member key members') := by
  have hfold : ∀ (members members' : List (JsText × JsonText)) (found found' : Option JsonText),
      List.Forall₂ Alike (members.map Prod.fst) (members'.map Prod.fst) →
      List.Forall₂ Like (members.map Prod.snd) (members'.map Prod.snd) →
      Option.Rel Like found found' →
      Option.Rel Like (members.foldl (fun found m => if m.1 = key then some m.2 else found) found)
        (members'.foldl (fun found m => if m.1 = key then some m.2 else found) found') := by
    intro members
    induction members with
    | nil =>
      intro members' found found' hkeys _ hfound
      obtain rfl : members' = [] := by simpa using hkeys
      exact hfound
    | cons m members ih =>
      intro members' found found' hkeys hvalues hfound
      cases members' with
      | nil => simp at hkeys
      | cons m' members' =>
        simp only [List.map_cons, List.forall₂_cons] at hkeys hvalues
        simp only [List.foldl_cons, hkeys.1.eq_iff hkey]
        refine ih members' _ _ hkeys.2 hvalues.2 ?_
        split_ifs
        · exact .some hvalues.1
        · exact hfound
  have hrefl : ∀ o : Option JsonText, Option.Rel Like o o := fun o => by
    cases o with
    | none => exact .none
    | some v => exact .some (.same v)
  cases h with
  | same => exact hrefl _
  | obj hkeys hvalues => exact hfold _ _ none none hkeys hvalues .none

theorem Like.get? {j j' : JsonText} {key : JsText} (hkey : ∀ u ∈ key, u < 128) (h : Like j j')
    (hget : j.get? key = some (some v)) : ∃ v', j'.get? key = some (some v') ∧ Like v v' := by
  cases h with
  | same => exact ⟨v, hget, .same v⟩
  | str => simp [JsonText.get?] at hget
  | arr => simp [JsonText.get?] at hget
  | @obj members members' hkeys hvalues =>
    have hmember := member_like hkey (.obj hkeys hvalues)
    simp only [JsonText.get?, Option.some.injEq] at hget ⊢
    rw [hget] at hmember
    cases hfound : member key members' with
    | none =>
      rw [hfound] at hmember
      cases hmember
    | some v' =>
      rw [hfound] at hmember
      cases hmember with
      | some hv => exact ⟨v', rfl, hv⟩

/-- A string of ASCII, where it stands in one, stands in the other. -/
theorem Like.str_eq (hs : ∀ u ∈ s, u < 128) (h : Like (.str s) v) : v = .str s := by
  cases h with
  | same => rfl
  | str hlike => rw [(hlike.eq_iff hs).mp rfl]

theorem Like.num_eq (h : Like (.num s) v) : v = .num s := by
  cases h
  rfl

/-- A text of white space alone is no value. -/
theorem parse_blank (h : ∀ u ∈ s, start u = none ∨ isSpace u = true) : parse s = none := by
  have htokens : tokens .idle s = none ∨ tokens .idle s = some [] := by
    induction s with
    | nil => exact .inr rfl
    | cons u s ih =>
      obtain ⟨hu, hs⟩ := List.forall_mem_cons.mp h
      rcases hu with hnone | hspace
      · exact .inl (by simp [tokens, Scan.step, hnone])
      · have hstart : start u = some ([], .idle) := by simp [start, hspace]
        simpa [tokens, Scan.step, hstart] using ih hs
  rcases htokens with hnone | hempty
  · rw [parse, hnone, Option.bind_none]
  · rw [parse, hempty]
    rfl

end Parser

end JsonText

end SupabaseLab.Library
