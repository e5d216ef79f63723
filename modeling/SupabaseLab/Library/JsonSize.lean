/-
  Library/JsonSize.lean --- what a value costs to write down.

  The size of a value is the weight of its shortest text.  Reading pays for what it
  builds, unit by unit and token by token, so no text is read as a value larger than
  itself; and a key that is written twice only loses what the first one cost.
-/
import SupabaseLab.Library.JsonStringify
import SupabaseLab.Library.KeyMap

set_option autoImplicit false

namespace SupabaseLab.Library.JsonText

/-! ## Size -/

mutual

def size : JsonText → Nat
  | .null => 4
  | .bool b => if b then 4 else 5
  | .num digits => weights digits
  | .str s => 2 + costs s
  | .arr items => 1 + max 1 (itemsSize items)
  | .obj members => 1 + max 1 (membersSize members)

/-- Each item with the comma or bracket behind it. -/
def itemsSize : List JsonText → Nat
  | [] => 0
  | v :: items => size v + 1 + itemsSize items

def membersSize : List (JsText × JsonText) → Nat
  | [] => 0
  | (key, v) :: members => 3 + costs key + size v + 1 + membersSize members

end

@[simp] theorem itemsSize_append (items items' : List JsonText) :
    itemsSize (items ++ items') = itemsSize items + itemsSize items' := by
  induction items with
  | nil => simp [itemsSize]
  | cons v items ih => simp [itemsSize, ih, Nat.add_assoc]

@[simp] theorem membersSize_append (members members' : List (JsText × JsonText)) :
    membersSize (members ++ members') = membersSize members + membersSize members' := by
  induction members with
  | nil => simp [membersSize]
  | cons m members ih => simp [membersSize, ih, Nat.add_assoc]

/-! ## Reading pays for what it builds -/

def tokenSize : Token → Nat
  | .punct _ => 1
  | .word s => size (wordValue s)
  | .num s => weights s
  | .str s => 2 + costs s

def tokensSize (ts : List Token) : Nat := (ts.map tokenSize).sum

/-- What the scanner has read of a token. -/
def Scan.size : Scan → Nat
  | .idle => 0
  | .word acc => weights acc
  | .num acc => weights acc
  | .str acc => 1 + costs acc
  | .escape acc => 2 + costs acc
  | .hex acc count _ => 3 + count + costs acc

section Scanner

variable {u e : Nat} {acc s : JsText} {t : Token} {ts : List Token} {scan next : Scan}

theorem one_le_weight (u : Nat) : 1 ≤ weight u := by
  unfold weight
  split_ifs
  · decide
  · decide

theorem cost_le_six (u : Nat) : cost u ≤ 6 := by
  unfold cost
  split_ifs
  · decide
  · decide
  · decide

theorem weights_reverse (s : JsText) : weights s.reverse = weights s := by simp [weights]

theorem cost_escaped (h : escaped u = some e) : cost e ≤ 2 := by
  unfold escaped at h
  split_ifs at h with hself
  · obtain rfl : u = e := Option.some.inj h
    rcases hself with rfl | rfl | rfl
    · decide
    · decide
    · decide
  all_goals
    obtain rfl := Option.some.inj h
    decide

theorem cost_plain (hquote : u ≠ 34) (hback : u ≠ 92) (hlow : 32 ≤ u) : cost u = weight u := by
  have hshort : shortEscape? u = none := by
    unfold shortEscape?
    rw [if_neg (by simp; omega), if_neg (by omega), if_neg (by omega), if_neg (by omega),
      if_neg (by omega), if_neg (by omega)]
  simp [cost, weight, hshort, Nat.not_lt.mpr hlow]

theorem size_wordToken (h : wordToken acc = some t) : tokenSize t = weights acc := by
  unfold wordToken at h
  split_ifs at h with hword
  obtain rfl := Option.some.inj h
  rw [tokenSize, ← weights_reverse acc]
  rcases hword with heq | heq | heq
  · rw [heq]
    have hvalue : wordValue (units "true") = .bool true := wordValue_bool true
    rw [hvalue, size]
    decide
  · rw [heq]
    have hvalue : wordValue (units "false") = .bool false := wordValue_bool false
    rw [hvalue, size]
    decide
  · rw [heq, wordValue_null, size]
    decide

theorem size_numToken (h : numToken acc = some t) : tokenSize t = weights acc := by
  unfold numToken at h
  split_ifs at h
  obtain rfl := Option.some.inj h
  exact weights_reverse acc

theorem size_start (h : start u = some (ts, next)) : tokensSize ts + next.size ≤ weight u := by
  have hone := one_le_weight u
  unfold start at h
  split_ifs at h
  · cases h
    simp [tokensSize, Scan.size]
  · cases h
    simpa [tokensSize, Scan.size] using hone
  · cases h
    simp [tokensSize, Scan.size]
  · cases h
    simp [tokensSize, Scan.size]
  · obtain ⟨c, -, heq⟩ := Option.map_eq_some_iff.mp h
    cases heq
    simpa [tokensSize, tokenSize, Scan.size] using hone

theorem size_before (h : before t u = some (ts, next)) :
    tokensSize ts + next.size ≤ tokenSize t + weight u := by
  obtain ⟨⟨ts', next'⟩, hstart, heq⟩ := Option.map_eq_some_iff.mp h
  cases heq
  have hsize := size_start hstart
  simp only [tokensSize, List.map_cons, List.sum_cons] at hsize ⊢
  omega

theorem Scan.size_step (h : scan.step u = some (ts, next)) :
    tokensSize ts + next.size ≤ scan.size + weight u := by
  have hone := one_le_weight u
  cases scan with
  | idle => simpa [Scan.size] using size_start h
  | word acc =>
    simp only [Scan.step] at h
    split_ifs at h
    · cases h
      simp [tokensSize, Scan.size, Nat.add_comm]
    · obtain ⟨t, ht, hbefore⟩ := Option.bind_eq_some_iff.mp h
      have hsize := size_before hbefore
      rwa [size_wordToken ht] at hsize
  | num acc =>
    simp only [Scan.step] at h
    split_ifs at h
    · cases h
      simp [tokensSize, Scan.size, Nat.add_comm]
    · obtain ⟨t, ht, hbefore⟩ := Option.bind_eq_some_iff.mp h
      have hsize := size_before hbefore
      rwa [size_numToken ht] at hsize
  | str acc =>
    simp only [Scan.step] at h
    split_ifs at h with hquote hback hlow
    · cases h
      simp only [tokensSize, tokenSize, Scan.size, List.map_cons, List.map_nil, List.sum_cons,
        List.sum_nil, costs_reverse]
      omega
    · cases h
      simp only [tokensSize, Scan.size, List.map_nil, List.sum_nil]
      omega
    · cases h
      have hcost := cost_plain hquote hback (Nat.not_lt.mp hlow)
      simp only [tokensSize, Scan.size, List.map_nil, List.sum_nil, costs_cons]
      omega
  | escape acc =>
    simp only [Scan.step] at h
    split_ifs at h
    · cases h
      simp only [tokensSize, Scan.size, List.map_nil, List.sum_nil]
      omega
    · obtain ⟨e, he, heq⟩ := Option.map_eq_some_iff.mp h
      cases heq
      have hcost := cost_escaped he
      simp only [tokensSize, Scan.size, List.map_nil, List.sum_nil, costs_cons]
      omega
  | hex acc count value =>
    obtain ⟨d, -, heq⟩ := Option.map_eq_some_iff.mp h
    split_ifs at heq with hcount
    · cases heq
      have hcost := cost_le_six (16 * value + d)
      simp only [tokensSize, Scan.size, List.map_nil, List.sum_nil, costs_cons]
      omega
    · cases heq
      simp only [tokensSize, Scan.size, List.map_nil, List.sum_nil]
      omega

theorem Scan.size_finish (h : scan.finish = some ts) : tokensSize ts ≤ scan.size := by
  cases scan with
  | idle =>
    cases h
    exact Nat.le_refl 0
  | word acc =>
    obtain ⟨t, ht, rfl⟩ := Option.map_eq_some_iff.mp h
    simp [tokensSize, Scan.size, size_wordToken ht]
  | num acc =>
    obtain ⟨t, ht, rfl⟩ := Option.map_eq_some_iff.mp h
    simp [tokensSize, Scan.size, size_numToken ht]
  | _ => cases h

theorem size_tokens (h : tokens scan s = some ts) : tokensSize ts ≤ scan.size + weights s := by
  induction s generalizing scan ts with
  | nil => simpa using Scan.size_finish h
  | cons u s ih =>
    obtain ⟨⟨first, next⟩, hstep, hrest⟩ := Option.bind_eq_some_iff.mp h
    obtain ⟨more, hmore, rfl⟩ := Option.map_eq_some_iff.mp hrest
    have hfirst := Scan.size_step hstep
    have hnext := ih hmore
    simp only [tokensSize, List.map_append, List.sum_append, weights_cons] at hfirst hnext ⊢
    omega

end Scanner

section Parser

variable {t : Token} {ts : List Token} {p q : Parse} {stack : List Level} {s : JsText} {v : JsonText}

def Level.size : Level → Nat
  | .arr items => 1 + itemsSize items
  | .obj members key => 4 + membersSize members + costs key

def stackSize (stack : List Level) : Nat := (stack.map Level.size).sum

/-- What the machine has built. -/
def Parse.size : Parse → Nat
  | .value stack => stackSize stack
  | .item stack => 1 + stackSize stack
  | .key _ members stack => 1 + membersSize members + stackSize stack
  | .colon members k stack => 3 + membersSize members + costs k + stackSize stack
  | .done v stack => v.size + stackSize stack

@[simp] theorem stackSize_cons (level : Level) :
    stackSize (level :: stack) = level.size + stackSize stack := rfl

theorem size_beginValue (h : beginValue stack t = some q) : q.size ≤ stackSize stack + tokenSize t := by
  cases t with
  | punct c =>
    simp only [beginValue] at h
    split_ifs at h
    · cases h
      simp only [Parse.size, tokenSize]
      omega
    · cases h
      simp only [Parse.size, tokenSize, membersSize]
      omega
  | word s =>
    cases h
    simp only [Parse.size, tokenSize]
    omega
  | num s =>
    cases h
    simp only [Parse.size, tokenSize, JsonText.size]
    omega
  | str s =>
    cases h
    simp only [Parse.size, tokenSize, JsonText.size]
    omega

theorem Parse.size_step (h : p.step t = some q) : q.size ≤ p.size + tokenSize t := by
  cases p with
  | value stack => exact size_beginValue h
  | item stack =>
    simp only [Parse.step] at h
    split_ifs at h with hclose
    · cases h
      rw [hclose]
      simp only [Parse.size, tokenSize, JsonText.size, itemsSize]
      omega
    · simpa [Parse.size, Level.size, itemsSize] using size_beginValue h
  | key first members stack =>
    cases t with
    | str k =>
      cases h
      simp only [Parse.size, tokenSize]
      omega
    | punct c =>
      simp only [Parse.step] at h
      split_ifs at h
      cases h
      simp only [Parse.size, tokenSize, JsonText.size]
      omega
    | _ => simp [Parse.step] at h
  | colon members k stack =>
    simp only [Parse.step] at h
    split_ifs at h with hcolon
    cases h
    rw [hcolon]
    simp only [Parse.size, stackSize_cons, Level.size, tokenSize]
    omega
  | done v stack =>
    cases stack with
    | nil => cases h
    | cons level stack =>
      cases level with
      | arr items =>
        simp only [Parse.step] at h
        split_ifs at h with hcomma hclose
        · cases h
          rw [hcomma]
          simp only [Parse.size, stackSize_cons, Level.size, tokenSize, itemsSize_append, itemsSize]
          omega
        · cases h
          rw [hclose]
          simp only [Parse.size, stackSize_cons, Level.size, tokenSize, JsonText.size,
            itemsSize_append, itemsSize]
          omega
      | obj members k =>
        simp only [Parse.step] at h
        split_ifs at h with hcomma hclose
        · cases h
          rw [hcomma]
          simp only [Parse.size, stackSize_cons, Level.size, tokenSize, membersSize_append,
            membersSize]
          omega
        · cases h
          rw [hclose]
          simp only [Parse.size, stackSize_cons, Level.size, tokenSize, JsonText.size,
            membersSize_append, membersSize]
          omega

theorem size_foldlM (h : ts.foldlM Parse.step p = some q) : q.size ≤ p.size + tokensSize ts := by
  induction ts generalizing p with
  | nil =>
    cases h
    simp [tokensSize]
  | cons t ts ih =>
    rw [List.foldlM_cons] at h
    obtain ⟨m, hm, hrest⟩ := Option.bind_eq_some_iff.mp h
    have hstep := Parse.size_step hm
    have hmore := ih hrest
    simp only [tokensSize, List.map_cons, List.sum_cons] at hmore ⊢
    omega

/-- No text is read as a value larger than itself. -/
theorem size_parse (h : parse s = some v) : v.size ≤ weights s := by
  obtain ⟨ts, hts, hfold⟩ := Option.bind_eq_some_iff.mp h
  obtain ⟨q, hq, hresult⟩ := Option.bind_eq_some_iff.mp hfold
  have htokens := size_tokens hts
  have hvalue := size_foldlM hq
  obtain ⟨rfl⟩ : q = .done v [] := by
    unfold Parse.result at hresult
    split at hresult
    · rw [Option.some.inj hresult]
    · cases hresult
  simp only [Parse.size, stackSize, List.map_nil, List.sum_nil, Scan.size] at hvalue htokens
  omega

end Parser

/-! ## What writing costs -/

section Rendering

variable {content f : JsText → JsText} {gap : JsText → Nat}

/-- The comma that the first item does without. -/
def savedComma {α : Type} : Bool → List α → Nat
  | true, _ :: _ => 1
  | _, _ => 0

mutual

/-- A value weighs its size when it is written, but for what its strings are short of. -/
theorem weights_render (v : JsonText)
    (h : ∀ s ∈ strings v, weights (content s) + gap s = costs (f s)) :
    weights (render content v) + ((strings v).map gap).sum = size (mapStrings f v) := by
  have hone (u : Nat) (hu : isSurrogate u = false) : weight u = 1 := weight_eq_one hu
  cases v with
  | null =>
    have hword : weights (units "null") = 4 := by decide
    simp [render, mapStrings, size, strings, hword]
  | bool b =>
    have htrue : weights (units "true") = 4 := by decide
    have hfalse : weights (units "false") = 5 := by decide
    cases b with
    | true => simp [render, mapStrings, size, strings, htrue]
    | false => simp [render, mapStrings, size, strings, hfalse]
  | num d => simp [render, mapStrings, size, strings]
  | str s =>
    have hs := h s (by simp [strings])
    simp only [render, mapStrings, size, strings, weights_cons, weights_append, weights_nil,
      List.map_cons, List.map_nil, List.sum_cons, List.sum_nil, hone 34 rfl]
    omega
  | arr items =>
    have hitems := weights_renderItems true items fun s hs => h s (by simpa [strings] using hs)
    simp only [render, mapStrings, size, strings, weights_cons, weights_append, weights_nil,
      hone 91 rfl, hone 93 rfl]
    cases items with
    | nil => simp [renderItems, mapItems, itemsSize, itemStrings]
    | cons v items =>
      simp only [mapItems, itemsSize, savedComma] at hitems ⊢
      omega
  | obj members =>
    have hmembers := weights_renderMembers true members fun s hs => h s (by simpa [strings] using hs)
    simp only [render, mapStrings, size, strings, weights_cons, weights_append, weights_nil,
      hone 123 rfl, hone 125 rfl]
    cases members with
    | nil => simp [renderMembers, mapMembers, membersSize, memberStrings]
    | cons m members =>
      simp only [mapMembers, membersSize, savedComma] at hmembers ⊢
      omega

/-- Behind the first item every comma is written. -/
theorem weights_renderItems (first : Bool) (items : List JsonText)
    (h : ∀ s ∈ itemStrings items, weights (content s) + gap s = costs (f s)) :
    weights (renderItems content first items) + ((itemStrings items).map gap).sum +
      savedComma first items = itemsSize (mapItems f items) := by
  cases items with
  | nil => simp [renderItems, mapItems, itemsSize, itemStrings, savedComma]
  | cons v items =>
    have hv := weights_render v fun s hs => h s (by simp [itemStrings, hs])
    have hitems := weights_renderItems false items fun s hs => h s (by simp [itemStrings, hs])
    have hcomma : weight 44 = 1 := weight_eq_one rfl
    cases first with
    | true =>
      simp only [renderItems, mapItems, itemsSize, itemStrings, weights_append, List.map_append,
        List.sum_append, if_true, weights_nil, savedComma] at hitems ⊢
      omega
    | false =>
      simp only [renderItems, mapItems, itemsSize, itemStrings, weights_append, List.map_append,
        List.sum_append, weights_cons, weights_nil, Bool.false_eq_true, if_false, savedComma,
        hcomma] at hitems ⊢
      omega

theorem weights_renderMembers (first : Bool) (members : List (JsText × JsonText))
    (h : ∀ s ∈ memberStrings members, weights (content s) + gap s = costs (f s)) :
    weights (renderMembers content first members) + ((memberStrings members).map gap).sum +
      savedComma first members = membersSize (mapMembers f members) := by
  cases members with
  | nil => simp [renderMembers, mapMembers, membersSize, memberStrings, savedComma]
  | cons m members =>
    obtain ⟨key, v⟩ := m
    have hkey := h key (by simp [memberStrings])
    have hv := weights_render v fun s hs => h s (by simp [memberStrings, hs])
    have hmembers := weights_renderMembers false members
      fun s hs => h s (by simp [memberStrings, hs])
    have hcomma : weight 44 = 1 := weight_eq_one rfl
    have hquote : weight 34 = 1 := weight_eq_one rfl
    have hcolon : weight 58 = 1 := weight_eq_one rfl
    cases first with
    | true =>
      simp only [renderMembers, mapMembers, membersSize, memberStrings, weights_append,
        List.map_append, List.map_cons, List.sum_cons, List.sum_append, weights_cons, if_true,
        weights_nil, savedComma, hquote, hcolon] at hmembers ⊢
      omega
    | false =>
      simp only [renderMembers, mapMembers, membersSize, memberStrings, weights_append,
        List.map_append, List.map_cons, List.sum_cons, List.sum_append, weights_cons, weights_nil,
        Bool.false_eq_true, if_false, savedComma, hcomma, hquote, hcolon] at hmembers ⊢
      omega

end

end Rendering

/-! ## Keys that are written twice -/

section Keys

variable {m : JsMap JsText JsonText} {k : JsText} {v : JsonText}

theorem membersSize_overwrite (hnodup : (m.map Prod.fst).Nodup) (k : JsText) (v : JsonText) :
    membersSize (m.map fun e => if e.1 = k then (k, v) else e) ≤
      membersSize m + (3 + costs k + size v + 1) := by
  induction m with
  | nil => simp [membersSize]
  | cons e m ih =>
    obtain ⟨key, w⟩ := e
    obtain ⟨hfresh, hrest⟩ := List.nodup_cons.mp hnodup
    rw [List.map_cons]
    by_cases hkey : key = k
    · have hsame : (m.map fun e => if e.1 = k then (k, v) else e) = m := by
        refine (List.map_congr_left fun e he => ?_).trans (List.map_id m)
        rw [if_neg]
        · rfl
        · intro heq
          refine hfresh (List.mem_map.mpr ⟨e, he, ?_⟩)
          rw [heq, hkey]
      rw [hsame, if_pos hkey, hkey]
      simp only [membersSize]
      omega
    · rw [if_neg hkey]
      have hmore := ih hrest
      simp only [membersSize]
      omega

theorem membersSize_set (hnodup : (m.map Prod.fst).Nodup) (k : JsText) (v : JsonText) :
    membersSize (m.set k v) ≤ membersSize m + (3 + costs k + size v + 1) := by
  rw [JsMap.set]
  split_ifs
  · exact membersSize_overwrite hnodup k v
  · simp [membersSize]

theorem membersSize_foldl_set (l : List (JsText × JsonText)) (hnodup : (m.map Prod.fst).Nodup) :
    membersSize (l.foldl (fun m e => JsMap.set m e.1 e.2) m) ≤ membersSize m + membersSize l := by
  induction l generalizing m with
  | nil => simp [membersSize]
  | cons e l ih =>
    obtain ⟨key, w⟩ := e
    have hset := membersSize_set hnodup key w
    have hmore := ih (m := m.set key w) (JsMap.nodup_set hnodup key w)
    simp only [List.foldl_cons, membersSize] at hmore ⊢
    omega

mutual

/-- A value that loses its overwritten members gets no larger. -/
theorem size_collapse_le (v : JsonText) : size (collapse v) ≤ size v := by
  cases v with
  | arr items =>
    have hitems := size_collapseItems_le items
    simp only [collapse, size]
    omega
  | obj members =>
    have hmembers := size_collapseMembers_le members
    have hfold := membersSize_foldl_set (m := []) (collapseMembers members) List.nodup_nil
    simp only [collapse, size, membersSize] at hfold ⊢
    omega
  | _ => rw [collapse]

theorem size_collapseItems_le (items : List JsonText) :
    itemsSize (collapseItems items) ≤ itemsSize items := by
  cases items with
  | nil => rw [collapseItems]
  | cons v items =>
    have hv := size_collapse_le v
    have hitems := size_collapseItems_le items
    simp only [collapseItems, itemsSize]
    omega

theorem size_collapseMembers_le (members : List (JsText × JsonText)) :
    membersSize (collapseMembers members) ≤ membersSize members := by
  cases members with
  | nil => rw [collapseMembers]
  | cons m members =>
    obtain ⟨key, v⟩ := m
    have hv := size_collapse_le v
    have hmembers := size_collapseMembers_le members
    simp only [collapseMembers, membersSize]
    omega

end

theorem nodup_foldl_set (l : List (JsText × JsonText)) (hnodup : (m.map Prod.fst).Nodup) :
    ((l.foldl (fun m e => JsMap.set m e.1 e.2) m).map Prod.fst).Nodup := by
  induction l generalizing m with
  | nil => exact hnodup
  | cons e l ih => exact ih (JsMap.nodup_set hnodup e.1 e.2)

theorem foldl_set_of_nodup (l : List (JsText × JsonText))
    (hnodup : ((m ++ l).map Prod.fst).Nodup) :
    l.foldl (fun m e => JsMap.set m e.1 e.2) m = m ++ l := by
  induction l generalizing m with
  | nil => simp
  | cons e l ih =>
    have hfresh : JsMap.has m e.1 = false := by
      rw [Bool.eq_false_iff]
      intro hhas
      rw [List.map_append, List.map_cons] at hnodup
      exact (List.nodup_append.mp hnodup).2.2 _ (JsMap.has_iff.mp hhas) _ (.head _) rfl
    rw [List.foldl_cons, JsMap.set_of_not_has e.2 hfresh, ih (by simpa using hnodup)]
    simp

theorem keys_collapseMembers (members : List (JsText × JsonText)) :
    (collapseMembers members).map Prod.fst = members.map Prod.fst := by
  induction members with
  | nil => rw [collapseMembers]
  | cons m members ih => rw [collapseMembers, List.map_cons, ih, List.map_cons]

mutual

/-- Nothing is lost just when no object has a key twice. -/
theorem collapse_eq_self_iff (v : JsonText) : collapse v = v ↔ DistinctKeys v := by
  cases v with
  | arr items =>
    rw [collapse, DistinctKeys, ← collapseItems_eq_self_iff items]
    simp
  | obj members =>
    have hcollapsed := collapseMembers_eq_self_iff members
    rw [collapse, DistinctKeys, obj.injEq]
    constructor
    · intro heq
      have hnodup : (members.map Prod.fst).Nodup := by
        rw [← heq]
        exact nodup_foldl_set _ List.nodup_nil
      have hfold := foldl_set_of_nodup (m := []) (collapseMembers members)
        (by rw [List.nil_append, keys_collapseMembers]; exact hnodup)
      rw [hfold, List.nil_append] at heq
      exact ⟨hnodup, hcollapsed.mp heq⟩
    · rintro ⟨hnodup, hdistinct⟩
      rw [hcollapsed.mpr hdistinct]
      exact foldl_set_of_nodup (m := []) members hnodup
  | _ => simp [collapse, DistinctKeys]

theorem collapseItems_eq_self_iff (items : List JsonText) :
    collapseItems items = items ↔ DistinctItems items := by
  cases items with
  | nil => simp [collapseItems, DistinctItems]
  | cons v items =>
    rw [collapseItems, DistinctItems, List.cons.injEq, collapse_eq_self_iff v,
      collapseItems_eq_self_iff items]

theorem collapseMembers_eq_self_iff (members : List (JsText × JsonText)) :
    collapseMembers members = members ↔ DistinctMembers members := by
  cases members with
  | nil => simp [collapseMembers, DistinctMembers]
  | cons m members =>
    obtain ⟨key, v⟩ := m
    rw [collapseMembers, DistinctMembers, List.cons.injEq, Prod.mk.injEq, collapse_eq_self_iff v,
      collapseMembers_eq_self_iff members]
    simp

end

/-- A text that is read as a value weighs as much as the value, or more. -/
theorem size_read {s : JsText} (h : read s = some v) : size v ≤ weights s := by
  obtain ⟨w, hw, rfl⟩ := Option.map_eq_some_iff.mp h
  exact (size_collapse_le w).trans (size_parse hw)

end Keys

end SupabaseLab.Library.JsonText
