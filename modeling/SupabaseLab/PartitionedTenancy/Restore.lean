/-
  PartitionedTenancy/Restore.lean --- the recorded default privileges come back.

  What the database writes is read back as it was, as long as no role name needs
  quotes.  The revokes empty an object type and the grants fill it again, item by item.
-/
import SupabaseLab.PartitionedTenancy.Acl

set_option autoImplicit false

namespace SupabaseLab.PartitionedTenancy

open Library

/-- A role name that the database writes without quotes. -/
def PlainName (name : String) : Prop := name.toList.all isSafeAclChar = true

/-- The letters of an item. -/
def ListedItem.held (i : ListedItem) : List Char := i.letters.map Prod.fst

/-- The letters that carry a mark. -/
def ListedItem.grantable (i : ListedItem) : List Char := (i.letters.filter Prod.snd).map Prod.fst

/-- The items of one row: some, with distinct grantees and known letters. -/
structure WellListed (ty : String) (items : List ListedItem) : Prop where
  kind : ∃ o, objKind ty = some o ∧ ∀ i ∈ items, ∀ l ∈ i.letters, (o.privs.lookup l.1).isSome = true
  nonempty : items ≠ []
  grantees : (items.map ListedItem.grantee).Nodup
  letters : ∀ i ∈ items, i.letters ≠ [] ∧ i.held.Nodup

/-- A set of default ACL rows, with one row at most for a type. -/
structure AclRows where
  rows : List (String × List ListedItem)
  types : (rows.map Prod.fst).Nodup
  listed : ∀ r ∈ rows, WellListed r.1 r.2

def AclRows.asRows (s : AclRows) (role : String) : List DefaultAclRow :=
  s.rows.map fun r => ⟨r.1, listedAcl role r.2⟩

/-- The item as the database keeps it. -/
def ListedItem.entry (i : ListedItem) : AclEntry :=
  { grantee := i.grantee
    held := i.held.toFinset
    grantable := i.grantable.toFinset }

/-- The items that the rows list for a type. -/
def AclRows.items (s : AclRows) (ty : String) : List ListedItem := (s.rows.lookup ty).getD []

def AclRows.state (s : AclRows) : DefaultAcls := fun ty => (s.items ty).map ListedItem.entry

def AclRows.Plain (s : AclRows) : Prop := ∀ r ∈ s.rows, ∀ i ∈ r.2, PlainName i.grantee

/-- Each item lists its letters in the order of the database. -/
def AclRows.Canonical (s : AclRows) : Prop :=
  ∀ r ∈ s.rows, ∀ i ∈ r.2, i.held = aclOrder.filter fun c => c ∈ i.held

/-! ## The letters -/

section Letters

variable {ty role : String} {o : ObjKind} {i : ListedItem} {items : List ListedItem} {c : Char}
  {letters : List (Char × Bool)}

theorem mem_of_lookup {α β : Type} [DecidableEq α] {l : List (α × β)} {a : α} {b : β}
    (h : l.lookup a = some b) : (a, b) ∈ l := by
  obtain ⟨l₁, l₂, rfl, -⟩ := List.lookup_eq_some_iff.mp h
  exact List.mem_append_right _ List.mem_cons_self

/-- Every known letter is a letter that the database writes. -/
theorem known_letter (hkind : objKind ty = some o) (h : (o.privs.lookup c).isSome = true) :
    c.isAlpha = true ∧ c ∈ aclOrder := by
  obtain ⟨w, hw⟩ := Option.isSome_iff_exists.mp h
  have hall : ∀ p ∈ objKinds, ∀ q ∈ p.2.privs, q.1.isAlpha = true ∧ q.1 ∈ aclOrder := by decide
  exact hall _ (mem_of_lookup hkind) _ (mem_of_lookup hw)

/-- The text of the letters, with their marks. -/
def lettersText (letters : List (Char × Bool)) : List Char :=
  letters.flatMap fun (c, marked) => if marked then [c, '*'] else [c]

theorem readLetters_cons {rest : List Char} (hc : c ≠ '*') (hrest : rest.head? ≠ some '*') :
    readLetters (c :: rest) = (c :: (readLetters rest).1, (readLetters rest).2) := by
  match rest, hrest with
  | [], _ => simp [readLetters]
  | d :: rest, hrest =>
    have hd : d ≠ '*' := fun h => hrest (congrArg some h)
    rw [readLetters]
    · exact hc
    · rintro rest' heq
      exact hd (List.cons.inj heq).1

theorem ne_star_of_isAlpha (h : c.isAlpha = true) : c ≠ '*' := by
  rintro rfl
  revert h
  decide

theorem readLetters_text (h : ∀ l ∈ letters, l.1.isAlpha = true) :
    readLetters (lettersText letters) =
      (letters.map Prod.fst, (letters.filter Prod.snd).map Prod.fst) := by
  induction letters with
  | nil => rfl
  | cons l letters ih =>
    obtain ⟨c, marked⟩ := l
    have hc := ne_star_of_isAlpha (h (c, marked) List.mem_cons_self)
    have ih := ih fun l hl => h l (List.mem_cons_of_mem _ hl)
    cases marked with
    | true =>
      show readLetters (c :: '*' :: lettersText letters) = _
      rw [readLetters, ih]
      · rfl
      · exact hc
    | false =>
      show readLetters (c :: lettersText letters) = _
      rw [readLetters_cons hc, ih]
      · rfl
      · cases letters with
        | nil => exact (Option.some_ne_none _).symm
        | cons d letters =>
          have hd := ne_star_of_isAlpha (h d (List.mem_cons_of_mem _ List.mem_cons_self))
          have hhead : (lettersText (d :: letters)).head? = some d.1 := by
            obtain ⟨d, marked⟩ := d
            cases marked <;> rfl
          rw [hhead]
          exact fun heq => hd (Option.some.inj heq)

theorem lettersText_chars {d : Char} (h : ∀ l ∈ letters, l.1.isAlpha = true)
    (hd : d ∈ lettersText letters) : d.isAlpha = true ∨ d = '*' := by
  obtain ⟨⟨c, marked⟩, hl, hd⟩ := List.mem_flatMap.mp hd
  cases marked with
  | true =>
    rcases List.mem_cons.mp hd with rfl | hd
    · exact .inl (h _ hl)
    · exact .inr (List.mem_singleton.mp hd)
  | false =>
    rw [List.mem_singleton.mp hd]
    exact .inl (h _ hl)

end Letters

/-! ## Reading what the database writes -/

section Reading

variable {role : String} {i : ListedItem} {items : List ListedItem}

/-- What `parseAcl` reads of an item. -/
def ListedItem.parsed (role : String) (i : ListedItem) : AclItem :=
  { grantee := i.grantee
    privs := i.held
    grantable := i.grantable
    grantor := role }

/-- The item has a plain name and letters. -/
def ListedItem.Readable (i : ListedItem) : Prop :=
  PlainName i.grantee ∧ ∀ l ∈ i.letters, l.1.isAlpha = true

theorem aclName_eq {name : String} (h : PlainName name) : aclName name = name.toList := if_pos h

theorem isSafe_of_mem {name : String} (h : PlainName name) {c : Char} (hc : c ∈ name.toList) :
    isSafeAclChar c = true := List.all_eq_true.mp h c hc

theorem text_eq (hrole : PlainName role) (hi : i.Readable) :
    i.text role = i.grantee.toList ++ '=' :: (lettersText i.letters ++ '/' :: role.toList) := by
  unfold ListedItem.text
  rw [aclName_eq hrole, aclName_eq hi.1, List.append_assoc]
  rfl

/-- The characters of an item. -/
theorem text_chars (hrole : PlainName role) (hi : i.Readable) {c : Char} (hc : c ∈ i.text role) :
    isSafeAclChar c = true ∨ c ∈ ['=', '*', '/'] := by
  rw [text_eq hrole hi] at hc
  rcases List.mem_append.mp hc with hc | hc
  · exact .inl (isSafe_of_mem hi.1 hc)
  · rcases List.mem_cons.mp hc with rfl | hc
    · exact .inr (by decide)
    · rcases List.mem_append.mp hc with hc | hc
      · rcases lettersText_chars hi.2 hc with halpha | rfl
        · refine .inl ?_
          unfold isSafeAclChar Char.isAlphanum
          rw [halpha]
          rfl
        · exact .inr (by decide)
      · rcases List.mem_cons.mp hc with rfl | hc
        · exact .inr (by decide)
        · exact .inl (isSafe_of_mem hrole hc)

/-- No mark of an item is in a plain name. -/
theorem notMem_name {name : String} (h : PlainName name) {d : Char} (hd : isSafeAclChar d = false) :
    d ∉ name.toList := fun hmem => by
  rw [isSafe_of_mem h hmem] at hd
  cases hd

/-- A safe character is no line terminator. -/
theorem isLineChar_of_safe {c : Char} (h : isSafeAclChar c = true) : isLineChar c = true := by
  by_contra hline
  rw [isLineChar, Bool.not_eq_true', Bool.not_eq_false, decide_eq_true_iff] at hline
  have hbad : ∀ n ∈ [0xA, 0xD, 0x2028, 0x2029], isSafeAclChar (Char.ofNat n) = false := by decide
  have := hbad c.toNat hline
  rw [Char.ofNat_toNat, h] at this
  cases this

theorem matchItem_text (hrole : PlainName role) (hne : role ≠ "") (hi : i.Readable) :
    matchItem (i.text role) = some (i.grantee.toList, lettersText i.letters, role.toList) := by
  have hname : ∀ c ∈ i.grantee.toList, decide (c ≠ '=') = true := fun c hc =>
    decide_eq_true fun heq => notMem_name hi.1 (by decide) (heq ▸ hc)
  have hletters : ∀ c ∈ lettersText i.letters, isAclLetter c = true := fun c hc => by
    rcases lettersText_chars hi.2 hc with halpha | rfl
    · rw [isAclLetter, halpha]
      rfl
    · decide
  have hgrantor : role.toList ≠ [] ∧ role.toList.all isLineChar = true :=
    ⟨fun h => hne (String.toList_inj.mp h),
      List.all_eq_true.mpr fun c hc => isLineChar_of_safe (isSafe_of_mem hrole hc)⟩
  unfold matchItem
  rw [text_eq hrole hi, List.dropWhile_append_of_pos hname, List.takeWhile_append_of_pos hname,
    List.dropWhile_cons_of_neg (by decide), List.takeWhile_cons_of_neg (by decide), List.append_nil]
  dsimp only
  rw [List.dropWhile_append_of_pos hletters, List.takeWhile_append_of_pos hletters,
    List.dropWhile_cons_of_neg (by decide), List.takeWhile_cons_of_neg (by decide), List.append_nil]
  exact if_pos hgrantor

theorem parseItem_text (hrole : PlainName role) (hne : role ≠ "") (hi : i.Readable) :
    parseItem (i.text role) = .ok (i.parsed role) := by
  unfold parseItem
  rw [matchItem_text hrole hne hi]
  show Except.ok _ = _
  rw [readLetters_text hi.2, String.ofList_toList, String.ofList_toList]
  rfl

/-- A character that no name and no mark is made of is not in an item. -/
theorem notMem_text (hrole : PlainName role) (hi : i.Readable) {d : Char}
    (hd : isSafeAclChar d = false ∧ d ∉ ['=', '*', '/']) : d ∉ i.text role := fun hmem => by
  rcases text_chars hrole hi hmem with hsafe | hmark
  · rw [hd.1] at hsafe
    cases hsafe
  · exact hd.2 hmark

theorem arrayElement_text (hrole : PlainName role) (hi : i.Readable) :
    arrayElement (i.text role) = i.text role := by
  have hspecial : (['"', '\\', '\x7b', '\x7d', ',', ' ', '\t', '\r', '\n'].all fun d =>
      isSafeAclChar d = false ∧ d ∉ ['=', '*', '/']) = true := by decide
  unfold arrayElement
  refine if_neg ?_
  rw [Bool.not_eq_true, List.any_eq_false]
  intro c hc hquoted
  refine notMem_text hrole hi (of_decide_eq_true (List.all_eq_true.mp hspecial c ?_)) hc
  rw [Bool.or_eq_true, decide_eq_true_iff] at hquoted
  rcases hquoted with hmem | hspace
  · exact List.mem_append_left [' ', '\t', '\r', '\n'] hmem
  · refine List.mem_append_right ['"', '\\', '\x7b', '\x7d', ','] ?_
    simpa [Char.isWhitespace, or_assoc] using hspace

theorem mem_intercalate {c d : Char} {l : List (List Char)} (h : c ∈ [d].intercalate l) :
    c = d ∨ ∃ x ∈ l, c ∈ x := by
  induction l with
  | nil => exact absurd h List.not_mem_nil
  | cons x l ih =>
    cases l with
    | nil =>
      rw [List.intercalate_singleton] at h
      exact .inr ⟨x, List.mem_cons_self, h⟩
    | cons y l =>
      rw [List.intercalate_cons_cons, List.append_assoc, List.mem_append, List.mem_append,
        List.mem_singleton] at h
      rcases h with hx | heq | hrest
      · exact .inr ⟨x, List.mem_cons_self, hx⟩
      · exact .inl heq
      · exact (ih hrest).imp_right fun ⟨z, hz, hc⟩ => ⟨z, List.mem_cons_of_mem _ hz, hc⟩

/-- What the database writes is read as the items that it lists. -/
theorem parseAcl_listed (hrole : PlainName role) (hne : role ≠ "") (hitems : items ≠ [])
    (hread : ∀ i ∈ items, i.Readable) :
    parseAcl (listedAcl role items) = .ok (items.map (ListedItem.parsed role)) := by
  have helements : (items.map fun i => arrayElement (i.text role)) = items.map (ListedItem.text role) :=
    List.map_congr_left fun i hi => arrayElement_text hrole (hread i hi)
  have htext : listedAcl role items =
      String.ofList ('\x7b' :: [','].intercalate (items.map (ListedItem.text role)) ++ ['\x7d']) := by
    rw [listedAcl, helements]
  have htrim : jsTrim (listedAcl role items) = listedAcl role items := by
    rw [htext]
    exact jsTrim_ofList (by decide) (by decide)
  have hlist : (listedAcl role items).toList =
      '\x7b' :: [','].intercalate (items.map (ListedItem.text role)) ++ ['\x7d'] := by
    rw [htext, String.toList_ofList]
  have hsplit : ([','].intercalate (items.map (ListedItem.text role))).splitOn ',' =
      items.map (ListedItem.text role) := by
    refine List.splitOn_intercalate ',' (fun l hl => ?_) (fun h => hitems (List.map_eq_nil_iff.mp h))
    obtain ⟨i, hi, rfl⟩ := List.mem_map.mp hl
    exact notMem_text hrole (hread i hi) (by decide)
  have hinner : ((listedAcl role items).toList.drop 1).dropLast =
      [','].intercalate (items.map (ListedItem.text role)) := by
    rw [hlist, List.cons_append, List.drop_one, List.tail_cons, List.dropLast_concat]
  have hnotempty : ¬ (listedAcl role items = "" ∨ listedAcl role items = "absent" ∨
      listedAcl role items = "\x7b\x7d") := by
    rintro (heq | heq | heq)
    · rw [heq] at hlist
      cases hlist
    · rw [heq] at hlist
      cases (List.cons.inj hlist).1
    · rw [heq] at hlist
      have hnil : [','].intercalate (items.map (ListedItem.text role)) = [] :=
        (List.append_inj_left' (List.cons.inj hlist).2 rfl).symm
      rw [hnil, List.splitOn_nil] at hsplit
      obtain ⟨i, hi, htexti⟩ := List.mem_map.mp (hsplit ▸ List.mem_singleton_self [])
      rw [text_eq hrole (hread i hi)] at htexti
      exact List.append_ne_nil_of_right_ne_nil _ (List.cons_ne_nil _ _) htexti
  have hends : ¬ ((listedAcl role items).toList.head? ≠ some '\x7b' ∨
      (listedAcl role items).toList.getLast? ≠ some '\x7d') := by
    rw [hlist, List.getLast?_concat]
    exact not_or.mpr ⟨fun h => h rfl, fun h => h rfl⟩
  have hquote : '"' ∉ (listedAcl role items).toList := by
    rw [hlist]
    intro hmem
    rcases List.mem_append.mp hmem with hmem | hmem
    · rcases List.mem_cons.mp hmem with heq | hmem
      · cases heq
      · rcases mem_intercalate hmem with heq | ⟨l, hl, hmem⟩
        · cases heq
        · obtain ⟨i, hi, rfl⟩ := List.mem_map.mp hl
          exact notMem_text hrole (hread i hi) (by decide) hmem
    · cases List.mem_singleton.mp hmem
  unfold parseAcl
  simp only [htrim]
  rw [if_neg hnotempty, if_neg hends, if_neg hquote, hinner, hsplit, List.mapM_map]
  exact mapM_eq_ok fun i hi => parseItem_text hrole hne (hread i hi)

end Reading

/-! ## The rows of a set -/

section Rows

variable {s recorded current : AclRows} {role ty : String}

theorem AclRows.readable (hplain : s.Plain) {items : List ListedItem} (h : (ty, items) ∈ s.rows) :
    items ≠ [] ∧ ∀ i ∈ items, i.Readable := by
  have hlisted := s.listed _ h
  obtain ⟨o, ho, hknown⟩ := hlisted.kind
  exact ⟨hlisted.nonempty, fun i hi => ⟨hplain _ h i hi, fun l hl => (known_letter ho (hknown i hi l hl)).1⟩⟩

theorem aclOf_asRows : aclOf (s.asRows role) ty =
    ((s.rows.lookup ty).map (listedAcl role)).getD "absent" := by
  unfold aclOf AclRows.asRows
  induction s.rows with
  | nil => rfl
  | cons r rows ih =>
    rw [List.map_cons, List.find?_cons, List.lookup_cons]
    by_cases h : r.1 = ty
    · rw [decide_eq_true h, beq_iff_eq.mpr h.symm]
      rfl
    · rw [decide_eq_false h, beq_eq_false_iff_ne.mpr (Ne.symm h)]
      exact ih

theorem parseAcl_absent : parseAcl "absent" = .ok [] := rfl

theorem parseAcl_aclOf (hrole : PlainName role) (hne : role ≠ "") (hplain : s.Plain) :
    parseAcl (aclOf (s.asRows role) ty) = .ok ((s.items ty).map (ListedItem.parsed role)) := by
  rw [aclOf_asRows, AclRows.items]
  cases hrow : s.rows.lookup ty with
  | none => exact parseAcl_absent
  | some items =>
    obtain ⟨hitems, hread⟩ := s.readable hplain (mem_of_lookup hrow)
    exact parseAcl_listed hrole hne hitems hread

/-- What was read of an item determines what the database keeps. -/
def AclItem.entry (i : AclItem) : AclEntry := ⟨i.grantee, i.privs.toFinset, i.grantable.toFinset⟩

theorem state_eq_of_aclOf (hrole : PlainName role) (hne : role ≠ "") (hrec : recorded.Plain)
    (hcur : current.Plain) (h : aclOf (recorded.asRows role) ty = aclOf (current.asRows role) ty) :
    recorded.state ty = current.state ty := by
  have hparse : parseAcl (aclOf (recorded.asRows role) ty) =
      .ok ((recorded.items ty).map (ListedItem.parsed role)) := parseAcl_aclOf hrole hne hrec
  rw [h, parseAcl_aclOf hrole hne hcur] at hparse
  have hmap := congrArg (List.map AclItem.entry) (Except.ok.inj hparse)
  rw [List.map_map, List.map_map] at hmap
  exact hmap.symm

end Rows

/-! ## The statements of a type -/

section Statements

variable {ty role : String} {o : ObjKind} {i : ListedItem} {items : List ListedItem}
  {letters : List Char} {s : DefaultAcls}

/-- The words of known letters. -/
def wordsOf (o : ObjKind) (letters : List Char) : List String :=
  letters.map fun c => (o.privs.lookup c).getD ""

def ListedItem.plain (i : ListedItem) : List Char := i.held.filter fun c => c ∉ i.grantable

def grantsOf (o : ObjKind) (i : ListedItem) : List AclStatement :=
  (if i.grantable = [] then [] else [.grant (wordsOf o i.grantable) o.kw i.grantee true]) ++
    (if i.plain = [] then [] else [.grant (wordsOf o i.plain) o.kw i.grantee false])

theorem privList_eq (hkind : objKind ty = some o)
    (h : ∀ c ∈ letters, (o.privs.lookup c).isSome = true) :
    privList ty letters = .ok (wordsOf o letters) := by
  refine mapM_eq_ok fun c hc => ?_
  obtain ⟨w, hw⟩ := Option.isSome_iff_exists.mp (h c hc)
  rw [hkind, Option.bind_some, hw]
  rfl

theorem ListedItem.grantable_subset {c : Char} (hc : c ∈ i.grantable) : c ∈ i.held :=
  (List.filter_sublist.map _).subset hc

theorem ListedItem.grantable_union_plain :
    i.grantable.toFinset ∪ i.plain.toFinset = i.held.toFinset := by
  ext c
  rw [Finset.mem_union, List.mem_toFinset, List.mem_toFinset, List.mem_toFinset, ListedItem.plain,
    List.mem_filter, decide_eq_true_iff]
  constructor
  · exact fun h => h.elim ListedItem.grantable_subset fun h => h.1
  · intro hc
    by_cases hg : c ∈ i.grantable
    · exact .inl hg
    · exact .inr ⟨hc, hg⟩

/-- The kind has a word for each letter of the item. -/
def Known (o : ObjKind) (i : ListedItem) : Prop := ∀ c ∈ i.held, (o.privs.lookup c).isSome = true

theorem Known.grantable (h : Known o i) : ∀ c ∈ i.grantable, (o.privs.lookup c).isSome = true :=
  fun c hc => h c (ListedItem.grantable_subset hc)

theorem Known.plain (h : Known o i) : ∀ c ∈ i.plain, (o.privs.lookup c).isSome = true :=
  fun c hc => h c (List.mem_filter.mp hc).1

theorem grantItem_eq (hkind : objKind ty = some o) (h : Known o i) :
    grantItem ty o (i.parsed role) = .ok (grantsOf o i) := by
  have hplain : ((i.parsed role).privs.filter fun c => c ∉ (i.parsed role).grantable) = i.plain := rfl
  unfold grantItem grantsOf
  simp only [hplain]
  rw [show (i.parsed role).grantable = i.grantable from rfl, privList_eq hkind h.grantable,
    privList_eq hkind h.plain]
  split <;> split <;> rfl

/-- The type of a kind's word, and the letter of a privilege's word. -/
theorem objLetter_kw (hkind : objKind ty = some o) : objLetters.lookup o.kw = some ty := by
  have hall : ∀ p ∈ objKinds, objLetters.lookup p.2.kw = some p.1 := by decide
  exact hall _ (mem_of_lookup hkind)

theorem letters_words (hkind : objKind ty = some o)
    (h : ∀ c ∈ letters, (o.privs.lookup c).isSome = true) :
    (wordsOf o letters).filterMap (fun w => privLetters.lookup w) = letters := by
  have hall : ∀ p ∈ objKinds, ∀ q ∈ p.2.privs, privLetters.lookup q.2 = some q.1 := by decide
  unfold wordsOf
  rw [List.filterMap_map]
  have hback : ∀ c ∈ letters, ((fun w => privLetters.lookup w) ∘ fun c => (o.privs.lookup c).getD "") c =
      some c := by
    intro c hc
    obtain ⟨w, hw⟩ := Option.isSome_iff_exists.mp (h c hc)
    rw [Function.comp_apply, hw]
    exact hall _ (mem_of_lookup hkind) _ (mem_of_lookup hw)
  rw [List.filterMap_congr hback]
  exact List.filterMap_some

/-! ## Running them -/

@[simp] theorem update_self {l : List AclEntry} : s.update ty l ty = l := if_pos rfl

theorem update_ne {ty' : String} {l : List AclEntry} (h : ty' ≠ ty) : s.update ty l ty' = s ty' :=
  if_neg h

theorem update_update {l l' : List AclEntry} : (s.update ty l).update ty l' = s.update ty l' := by
  funext ty'
  unfold DefaultAcls.update
  split <;> rfl

theorem update_same (s : DefaultAcls) (ty : String) : s.update ty (s ty) = s := by
  funext ty'
  unfold DefaultAcls.update
  split
  · rename_i h
    rw [h]
  · rfl

theorem exec_revokes (hkind : objKind ty = some o) (gs : List String) (s : DefaultAcls) :
    (gs.map (AclStatement.revokeAll o.kw)).foldl execAcl s =
      s.update ty ((s ty).filter fun e => e.grantee ∉ gs) := by
  induction gs generalizing s with
  | nil =>
    have hall : ((s ty).filter fun e => e.grantee ∉ ([] : List String)) = s ty :=
      List.filter_eq_self.mpr fun e _ => decide_eq_true List.not_mem_nil
    rw [List.map_nil, List.foldl_nil, hall, update_same]
  | cons g gs ih =>
    have hone : execAcl s (.revokeAll o.kw g) = s.update ty ((s ty).filter fun e => e.grantee ≠ g) := by
      rw [execAcl, objLetter_kw hkind]
    rw [List.map_cons, List.foldl_cons, hone, ih, update_update, update_self, List.filter_filter]
    congr 1
    refine List.filter_congr fun e _ => ?_
    rw [← Bool.decide_and]
    exact decide_eq_decide.mpr (by rw [List.mem_cons, not_or, and_comm])

theorem grantTo_new {l : List AclEntry} {g : String} {held grantable : Finset Char}
    (h : ∀ e ∈ l, e.grantee ≠ g) : grantTo l g held grantable = l ++ [⟨g, held, grantable⟩] := by
  refine if_neg ?_
  rw [Bool.not_eq_true, List.any_eq_false]
  exact fun e he => by rw [decide_eq_true_iff]; exact h e he

theorem grantTo_last {l : List AclEntry} {g : String} {held held' grantable grantable' : Finset Char}
    (h : ∀ e ∈ l, e.grantee ≠ g) : grantTo (l ++ [⟨g, held, grantable⟩]) g held' grantable' =
      l ++ [⟨g, held ∪ held', grantable ∪ grantable'⟩] := by
  have hany : (l ++ [AclEntry.mk g held grantable]).any (fun e => e.grantee = g) = true :=
    List.any_eq_true.mpr ⟨_, List.mem_append_right _ List.mem_cons_self, decide_eq_true rfl⟩
  have hkeep : l.map (fun e => if e.grantee = g then
      AclEntry.mk g (e.held ∪ held') (e.grantable ∪ grantable') else e) = l := by
    conv_rhs => rw [← List.map_id l]
    exact List.map_congr_left fun e he => if_neg (h e he)
  rw [grantTo, if_pos hany, List.map_append, hkeep, List.map_singleton, if_pos rfl]

theorem exec_grant (hkind : objKind ty = some o)
    (h : ∀ c ∈ letters, (o.privs.lookup c).isSome = true) (g : String) (option : Bool) :
    execAcl s (.grant (wordsOf o letters) o.kw g option) =
      s.update ty (grantTo (s ty) g letters.toFinset (if option then letters.toFinset else ∅)) := by
  rw [execAcl, objLetter_kw hkind]
  simp only [letters_words hkind h]

/-- The grants of an item append it. -/
theorem exec_grantsOf (hkind : objKind ty = some o) (hknown : Known o i) (hsome : i.letters ≠ [])
    (hnew : ∀ e ∈ s ty, e.grantee ≠ i.grantee) :
    (grantsOf o i).foldl execAcl s = s.update ty (s ty ++ [i.entry]) := by
  have hunion := i.grantable_union_plain
  have hheld : i.held ≠ [] := fun h => hsome (List.map_eq_nil_iff.mp h)
  unfold grantsOf
  by_cases hg : i.grantable = []
  · have hall : i.plain = i.held := by
      rw [ListedItem.plain, hg]
      exact List.filter_eq_self.mpr fun c _ => decide_eq_true List.not_mem_nil
    rw [if_pos hg, hall, if_neg hheld, List.nil_append, List.foldl_cons, List.foldl_nil,
      exec_grant hkind hknown, grantTo_new hnew, ListedItem.entry, hg]
    rfl
  · rw [if_neg hg, List.foldl_append, List.foldl_cons, List.foldl_nil, exec_grant hkind hknown.grantable,
      grantTo_new hnew]
    by_cases hp : i.plain = []
    · rw [hp, List.toFinset_nil, Finset.union_empty] at hunion
      rw [if_pos hp, List.foldl_nil, hunion, ListedItem.entry, ← hunion]
      rfl
    · rw [if_neg hp, List.foldl_cons, List.foldl_nil, exec_grant hkind hknown.plain, update_self,
        grantTo_last hnew, update_update, hunion, if_neg Bool.false_ne_true, Finset.union_empty]
      rfl

/-- The grants of all items append them, in their order. -/
theorem exec_allGrants (hkind : objKind ty = some o) (items : List ListedItem) (s : DefaultAcls)
    (hknown : ∀ i ∈ items, Known o i ∧ i.letters ≠ [])
    (hnodup : (items.map ListedItem.grantee).Nodup)
    (hnew : ∀ i ∈ items, ∀ e ∈ s ty, e.grantee ≠ i.grantee) :
    ((items.map (grantsOf o)).flatten).foldl execAcl s =
      s.update ty (s ty ++ items.map ListedItem.entry) := by
  induction items generalizing s with
  | nil =>
    rw [List.map_nil, List.flatten_nil, List.foldl_nil, List.map_nil, List.append_nil, update_same]
  | cons i items ih =>
    obtain ⟨hi, hsome⟩ := hknown i List.mem_cons_self
    obtain ⟨hfresh, hnodup⟩ := List.nodup_cons.mp hnodup
    rw [List.map_cons, List.flatten_cons, List.foldl_append,
      exec_grantsOf hkind hi hsome (hnew i List.mem_cons_self), ih, update_update, update_self,
      List.append_assoc, List.map_cons, List.singleton_append]
    · exact fun j hj => hknown j (List.mem_cons_of_mem _ hj)
    · exact hnodup
    · intro j hj e he
      rw [update_self] at he
      rcases List.mem_append.mp he with he | he
      · exact hnew j (List.mem_cons_of_mem _ hj) e he
      · rw [List.mem_singleton.mp he]
        exact fun heq : i.grantee = j.grantee => hfresh (heq ▸ List.mem_map_of_mem hj)

end Statements

/-! ## The round trip -/

section RoundTrip

variable {recorded current : AclRows} {role ty : String} {s : DefaultAcls}

theorem AclRows.mem_items {s : AclRows} {i : ListedItem} (hi : i ∈ s.items ty) :
    (ty, s.items ty) ∈ s.rows := by
  unfold AclRows.items at hi ⊢
  cases hrow : s.rows.lookup ty with
  | none =>
    rw [hrow] at hi
    cases hi
  | some items => exact mem_of_lookup hrow

/-- A type that a row names is known, and so are the letters of its items. -/
theorem AclRows.known {s : AclRows} {o : ObjKind} (hkind : objKind ty = some o) {i : ListedItem}
    (hi : i ∈ s.items ty) : Known o i ∧ i.letters ≠ [] := by
  have hlisted := s.listed _ (AclRows.mem_items hi)
  obtain ⟨o', ho', hknown⟩ := hlisted.kind
  obtain rfl : o' = o := Option.some.inj (ho'.symm.trans hkind)
  refine ⟨fun c hc => ?_, (hlisted.letters i hi).1⟩
  obtain ⟨l, hl, rfl⟩ := List.mem_map.mp hc
  exact hknown i hi l hl

theorem AclRows.items_nodup (s : AclRows) (ty : String) :
    ((s.items ty).map ListedItem.grantee).Nodup := by
  cases hitems : s.items ty with
  | nil => exact .nil
  | cons i items =>
    have hmem := AclRows.mem_items (s := s) (i := i) (hitems ▸ List.mem_cons_self)
    exact hitems ▸ (s.listed _ hmem).grantees

theorem nothingToDo_eq (hrole : PlainName role) (hne : role ≠ "") (hrec : recorded.Plain)
    (hcur : current.Plain) :
    ∃ skip, nothingToDo (aclOf (recorded.asRows role) ty) (aclOf (current.asRows role) ty) = .ok skip ∧
      (skip = true → recorded.state ty = current.state ty) ∧
      (aclOf (recorded.asRows role) ty = aclOf (current.asRows role) ty → skip = true) := by
  by_cases hsame : aclOf (recorded.asRows role) ty = aclOf (current.asRows role) ty
  · exact ⟨true, if_pos hsame, fun _ => state_eq_of_aclOf hrole hne hrec hcur hsame, fun _ => rfl⟩
  · rw [nothingToDo, if_neg hsame, parseAcl_aclOf hrole hne hrec, parseAcl_aclOf hrole hne hcur, ok_bind]
    by_cases hwant : recorded.items ty = []
    · rw [hwant, List.map_nil, if_pos rfl, ok_bind]
      refine ⟨_, rfl, fun hheld => ?_, fun h => absurd h hsame⟩
      have hheld := List.map_eq_nil_iff.mp (of_decide_eq_true hheld)
      rw [AclRows.state, AclRows.state, hwant, hheld]
    · rw [if_neg fun h => hwant (List.map_eq_nil_iff.mp h)]
      exact ⟨false, rfl, fun h => absurd h Bool.false_ne_true, fun h => absurd h hsame⟩

/-- The statements of a type turn the current items into the recorded ones, and touch
no other type. -/
theorem restoreType_eq (hrole : PlainName role) (hne : role ≠ "") (hrec : recorded.Plain)
    (hcur : current.Plain) {o : ObjKind} (hkind : objKind ty = some o) :
    ∃ out, restoreType (recorded.asRows role) (current.asRows role) role ty = .ok out ∧
      (∀ s : DefaultAcls, s ty = current.state ty →
        out.foldl execAcl s = s.update ty (recorded.state ty)) ∧
      (aclOf (recorded.asRows role) ty = aclOf (current.asRows role) ty → out = []) := by
  obtain ⟨skip, hskip, hstate, htexts⟩ :
      ∃ skip, nothingToDo (aclOf (recorded.asRows role) ty) (aclOf (current.asRows role) ty) = .ok skip ∧
        (skip = true → recorded.state ty = current.state ty) ∧
        (aclOf (recorded.asRows role) ty = aclOf (current.asRows role) ty → skip = true) :=
    nothingToDo_eq hrole hne hrec hcur
  unfold restoreType
  rw [hkind]
  simp only [orThrow, ok_bind, hskip, parseAcl_aclOf hrole hne hrec, parseAcl_aclOf hrole hne hcur]
  cases skip with
  | true =>
    refine ⟨[], rfl, fun s hs => ?_, fun _ => rfl⟩
    rw [List.foldl_nil, hstate rfl, ← hs, update_same]
  | false =>
    have hgrantors : ((recorded.items ty).map (ListedItem.parsed role)).find?
        (fun i => decide (i.grantor ≠ role)) = none := by
      rw [List.find?_eq_none]
      intro i hi
      obtain ⟨j, -, rfl⟩ := List.mem_map.mp hi
      rw [decide_eq_true_iff]
      exact fun h => h rfl
    have hgrants : ((recorded.items ty).map (ListedItem.parsed role)).mapM (grantItem ty o) =
        .ok ((recorded.items ty).map (grantsOf o)) := by
      rw [List.mapM_map]
      exact mapM_eq_ok fun i hi => grantItem_eq hkind (AclRows.known hkind hi).1
    rw [if_neg Bool.false_ne_true, hgrantors]
    refine ⟨_, by rw [hgrants]; rfl, fun s hs => ?_, fun h => absurd (htexts h) Bool.false_ne_true⟩
    have hempty : (s ty).filter (fun e => e.grantee ∉ distinct
        (((current.items ty).map (ListedItem.parsed role) ++
          (recorded.items ty).map (ListedItem.parsed role)).map AclItem.grantee)) = [] := by
      rw [hs, List.filter_eq_nil_iff]
      intro e he
      obtain ⟨i, hi, rfl⟩ := List.mem_map.mp he
      rw [decide_eq_true_iff, not_not, mem_distinct, List.map_append, List.map_map]
      exact List.mem_append_left _ (List.mem_map.mpr ⟨i, hi, rfl⟩)
    rw [List.foldl_append, exec_revokes hkind, hempty,
      exec_allGrants hkind _ _ (fun i hi => AclRows.known hkind hi) (recorded.items_nodup ty)
        (fun i _ e he => by rw [update_self] at he; cases he), update_self, update_update]
    rfl

/-- The types are taken one after another, each once. -/
theorem restoreTypes_eq (hrole : PlainName role) (hne : role ≠ "") (hrec : recorded.Plain)
    (hcur : current.Plain) (types : List String) (hnodup : types.Nodup)
    (hkinds : ∀ ty ∈ types, ∃ o, objKind ty = some o) :
    ∃ out, types.mapM (restoreType (recorded.asRows role) (current.asRows role) role) = .ok out ∧
      (∀ s : DefaultAcls, (∀ ty ∈ types, s ty = current.state ty) →
        ∀ ty, (out.flatten.foldl execAcl s) ty = if ty ∈ types then recorded.state ty else s ty) ∧
      ((∀ ty ∈ types, aclOf (recorded.asRows role) ty = aclOf (current.asRows role) ty) →
        out.flatten = []) := by
  induction types with
  | nil => exact ⟨[], rfl, fun s _ ty => (if_neg List.not_mem_nil).symm, fun _ => rfl⟩
  | cons ty types ih =>
    obtain ⟨hfresh, hnodup⟩ := List.nodup_cons.mp hnodup
    obtain ⟨o, hkind⟩ := hkinds ty List.mem_cons_self
    obtain ⟨out, hout, hexec, hempty⟩ := restoreType_eq hrole hne hrec hcur hkind
    obtain ⟨outs, houts, hexecs, hempties⟩ := ih hnodup fun ty' h => hkinds ty' (List.mem_cons_of_mem _ h)
    refine ⟨out :: outs, ?_, fun s hs ty' => ?_, fun h => ?_⟩
    · rw [List.mapM_cons, hout, ok_bind, houts, ok_bind]
      rfl
    · have hrest : ∀ x ∈ types, s.update ty (recorded.state ty) x = current.state x := by
        intro x hx
        have hother : x ≠ ty := fun heq => hfresh (heq ▸ hx)
        rw [update_ne hother]
        exact hs x (List.mem_cons_of_mem _ hx)
      rw [List.flatten_cons, List.foldl_append, hexec s (hs ty List.mem_cons_self), hexecs _ hrest]
      by_cases h : ty' = ty
      · rw [if_neg (h ▸ hfresh), if_pos (h ▸ List.mem_cons_self), h, update_self]
      · by_cases hmem : ty' ∈ types
        · rw [if_pos hmem, if_pos (List.mem_cons_of_mem _ hmem)]
        · rw [if_neg hmem, if_neg fun hc => (List.mem_cons.mp hc).elim h hmem, update_ne h]
    · rw [List.flatten_cons, hempty (h ty List.mem_cons_self),
        hempties fun ty' hty' => h ty' (List.mem_cons_of_mem _ hty')]
      rfl

theorem mem_aclTypes {rows rows' : List DefaultAclRow} : ty ∈ aclTypes rows rows' ↔
    (∃ r ∈ rows, r.objtype = ty) ∨ ∃ r ∈ rows', r.objtype = ty := by
  unfold aclTypes
  rw [mem_sortStrings, mem_distinct, List.map_append, List.mem_append, List.mem_map, List.mem_map]

theorem exists_asRows : (∃ r ∈ recorded.asRows role, r.objtype = ty) ↔
    ∃ items, (ty, items) ∈ recorded.rows := by
  constructor
  · rintro ⟨r, hr, rfl⟩
    obtain ⟨⟨ty, items⟩, hmem, rfl⟩ := List.mem_map.mp hr
    exact ⟨items, hmem⟩
  · rintro ⟨items, hmem⟩
    exact ⟨_, List.mem_map_of_mem hmem, rfl⟩

theorem items_eq_nil (h : ¬ ∃ items, (ty, items) ∈ recorded.rows) : recorded.items ty = [] := by
  unfold AclRows.items
  cases hrow : recorded.rows.lookup ty with
  | none => rfl
  | some items => exact absurd ⟨items, mem_of_lookup hrow⟩ h

/-- Applied to the current items, the statements give the recorded ones. -/
theorem restoreStatements_eq (hrole : PlainName role) (hne : role ≠ "") (hrec : recorded.Plain)
    (hcur : current.Plain) :
    ∃ out, restoreStatements (recorded.asRows role) (current.asRows role) role = .ok out ∧
      out.foldl execAcl current.state = recorded.state ∧
      ((∀ ty, aclOf (recorded.asRows role) ty = aclOf (current.asRows role) ty) → out = []) := by
  have hkinds : ∀ ty ∈ aclTypes (recorded.asRows role) (current.asRows role),
      ∃ o, objKind ty = some o := by
    intro ty hty
    rcases mem_aclTypes.mp hty with h | h
    · obtain ⟨items, hmem⟩ := exists_asRows.mp h
      exact (recorded.listed _ hmem).kind.imp fun _ ho => ho.1
    · obtain ⟨items, hmem⟩ := exists_asRows.mp h
      exact (current.listed _ hmem).kind.imp fun _ ho => ho.1
  obtain ⟨outs, houts, hexec, hempty⟩ := restoreTypes_eq hrole hne hrec hcur
    (aclTypes (recorded.asRows role) (current.asRows role))
    (nodup_sortStrings.mpr (nodup_distinct _)) hkinds
  refine ⟨outs.flatten, by rw [restoreStatements, houts]; rfl, ?_, fun h => hempty fun ty _ => h ty⟩
  funext ty
  rw [hexec current.state (fun _ _ => rfl) ty]
  split
  · rfl
  · rename_i hno
    rw [mem_aclTypes, not_or, exists_asRows, exists_asRows] at hno
    rw [AclRows.state, AclRows.state, items_eq_nil hno.1, items_eq_nil hno.2]

/-! ## The comparison afterwards -/

theorem aclOrder_nodup : aclOrder.Nodup := by decide

/-- Listed as the database writes it, an item has the same letters. -/
theorem listed_perm {i : ListedItem} (hnodup : i.held.Nodup) (horder : ∀ c ∈ i.held, c ∈ aclOrder) :
    i.entry.listed.held.Perm i.held ∧ i.entry.listed.grantable.Perm i.grantable := by
  have hheld : i.entry.listed.held = aclOrder.filter fun c => c ∈ i.held.toFinset := by
    show ((aclOrder.filter fun c => c ∈ i.held.toFinset).map
      (fun c => (c, decide (c ∈ i.grantable.toFinset)))).map Prod.fst = _
    rw [List.map_map]
    exact List.map_id _
  have hgrantable : i.entry.listed.grantable =
      (aclOrder.filter fun c => c ∈ i.held.toFinset).filter fun c => c ∈ i.grantable.toFinset := by
    show (((aclOrder.filter fun c => c ∈ i.held.toFinset).map
      (fun c => (c, decide (c ∈ i.grantable.toFinset)))).filter Prod.snd).map Prod.fst = _
    rw [List.filter_map, List.map_map]
    exact List.map_id _
  rw [hheld, hgrantable]
  constructor
  · refine (List.perm_ext_iff_of_nodup (aclOrder_nodup.filter _) hnodup).mpr fun c => ?_
    rw [List.mem_filter, decide_eq_true_iff, List.mem_toFinset]
    exact ⟨fun h => h.2, fun h => ⟨horder c h, h⟩⟩
  · refine (List.perm_ext_iff_of_nodup ((aclOrder_nodup.filter _).filter _)
      (hnodup.sublist (List.filter_sublist.map _))).mpr fun c => ?_
    rw [List.mem_filter, List.mem_filter, decide_eq_true_iff, decide_eq_true_iff, List.mem_toFinset,
      List.mem_toFinset]
    exact ⟨fun h => h.2, fun h => ⟨⟨horder c (ListedItem.grantable_subset h),
      ListedItem.grantable_subset h⟩, h⟩⟩

theorem letters_eq {i : ListedItem} (hnodup : i.held.Nodup) :
    i.letters = i.held.map fun c => (c, decide (c ∈ i.grantable)) := by
  unfold ListedItem.held
  rw [List.map_map]
  conv_lhs => rw [← List.map_id i.letters]
  refine List.map_congr_left fun l hl => Prod.ext rfl ?_
  show l.2 = decide (l.1 ∈ i.grantable)
  rw [Bool.eq_iff_iff, decide_eq_true_iff]
  constructor
  · exact fun hmark => List.mem_map_of_mem (List.mem_filter.mpr ⟨hl, hmark⟩)
  · intro hmem
    obtain ⟨l', hl', heq⟩ := List.mem_map.mp hmem
    obtain ⟨hl', hmark⟩ := List.mem_filter.mp hl'
    rw [← List.inj_on_of_nodup_map hnodup hl' hl heq]
    exact hmark

/-- A canonical item is listed as it was. -/
theorem listed_eq {i : ListedItem} (hnodup : i.held.Nodup)
    (hcanonical : i.held = aclOrder.filter fun c => c ∈ i.held) : i.entry.listed = i := by
  have hletters : i.entry.listed.letters = i.letters := by
    show (aclOrder.filter fun c => c ∈ i.held.toFinset).map
      (fun c => (c, decide (c ∈ i.grantable.toFinset))) = _
    simp only [List.mem_toFinset]
    rw [← hcanonical]
    exact (letters_eq hnodup).symm
  exact congrArg (ListedItem.mk i.grantee) hletters

/-- The rows that the database has after a restore. -/
theorem aclOf_rows (s : DefaultAcls) (hknown : ∃ o, objKind ty = some o) :
    aclOf (s.rows role) ty =
      if s ty = [] then "absent" else listedAcl role ((s ty).map AclEntry.listed) := by
  obtain ⟨o, ho⟩ := hknown
  have hkey : ty ∈ sortStrings (objKinds.map Prod.fst) :=
    mem_sortStrings.mpr (List.mem_map_of_mem (f := Prod.fst) (mem_of_lookup ho))
  unfold aclOf
  cases hfind : (s.rows role).find? fun r => r.objtype = ty with
  | none =>
    split
    · rfl
    · rename_i hsome
      have hrow := List.find?_eq_none.mp hfind _ (List.mem_map.mpr
        ⟨ty, List.mem_filter.mpr ⟨hkey, decide_eq_true hsome⟩, rfl⟩)
      exact absurd (decide_eq_true rfl) hrow
  | some r =>
    obtain ⟨ty', hmem, rfl⟩ := List.mem_map.mp (List.mem_of_find?_eq_some hfind)
    have htype := List.find?_some hfind
    obtain rfl : ty' = ty := of_decide_eq_true htype
    rw [if_neg (of_decide_eq_true (List.mem_filter.mp hmem).2)]
    rfl

theorem AclRows.letters_nodup {s : AclRows} {i : ListedItem} (hi : i ∈ s.items ty) : i.held.Nodup :=
  ((s.listed _ (AclRows.mem_items hi)).letters i hi).2

/-- The rows after the restore are read as the recorded ones are. -/
theorem normaliseAcl_rows (hrole : PlainName role) (hne : role ≠ "") (hrec : recorded.Plain)
    (hknown : ∃ o, objKind ty = some o) :
    ∃ text, normaliseAcl (aclOf (recorded.asRows role) ty) = .ok text ∧
      normaliseAcl (aclOf (recorded.state.rows role) ty) = .ok text := by
  obtain ⟨o, ho⟩ := hknown
  have hparse : parseAcl (aclOf (recorded.state.rows role) ty) =
      .ok (((recorded.items ty).map fun i => i.entry.listed).map (ListedItem.parsed role)) := by
    rw [aclOf_rows _ ⟨o, ho⟩, AclRows.state]
    cases hitems : recorded.items ty with
    | nil => exact parseAcl_absent
    | cons i items =>
      have hcons : (i :: items).map ListedItem.entry ≠ [] := List.cons_ne_nil _ _
      rw [if_neg hcons, ← hitems, List.map_map]
      have hsome : (recorded.items ty).map (AclEntry.listed ∘ ListedItem.entry) ≠ [] := by
        rw [hitems]
        exact List.cons_ne_nil _ _
      refine parseAcl_listed hrole hne hsome fun j hj => ?_
      obtain ⟨k, hk, rfl⟩ := List.mem_map.mp hj
      have hplain := hrec _ (AclRows.mem_items hk) k hk
      refine ⟨hplain, fun l hl => ?_⟩
      obtain ⟨c, hc, rfl⟩ := List.mem_map.mp hl
      have halpha : aclOrder.all Char.isAlpha = true := by decide
      exact List.all_eq_true.mp halpha c (List.mem_filter.mp hc).1
  unfold normaliseAcl
  rw [parseAcl_aclOf hrole hne hrec, hparse]
  refine ⟨_, rfl, congrArg (fun l => Except.ok (",".intercalate (sortStrings l))) ?_⟩
  rw [List.map_map, List.map_map, List.map_map]
  have hsame : ∀ i ∈ recorded.items ty,
      (normaliseItem ∘ ListedItem.parsed role ∘ fun i => i.entry.listed) i =
        (normaliseItem ∘ ListedItem.parsed role) i := by
    intro i hi
    obtain ⟨hheld, hgrantable⟩ := listed_perm (AclRows.letters_nodup hi) fun c hc =>
      (known_letter ho ((AclRows.known ho hi).1 c hc)).2
    show normaliseItem (i.entry.listed.parsed role) = normaliseItem (i.parsed role)
    unfold normaliseItem sortedText ListedItem.parsed
    rw [sortStrings_congr (hheld.map _), sortStrings_congr (hgrantable.map _)]
    rfl
  exact List.map_congr_left hsame

/-- Canonical rows come back with the same text. -/
theorem aclOf_rows_exact (hknown : ∃ o, objKind ty = some o) (hcanonical : recorded.Canonical) :
    aclOf (recorded.state.rows role) ty = aclOf (recorded.asRows role) ty := by
  rw [aclOf_rows _ hknown, aclOf_asRows]
  cases hrow : recorded.rows.lookup ty with
  | none =>
    have hnil : recorded.state ty = [] := by
      rw [AclRows.state, AclRows.items, hrow]
      rfl
    rw [if_pos hnil]
    rfl
  | some items =>
    have hmem := mem_of_lookup hrow
    have hitems : recorded.items ty = items := by
      rw [AclRows.items, hrow]
      rfl
    have hsome : recorded.state ty ≠ [] := fun h => by
      rw [AclRows.state, hitems] at h
      exact (recorded.listed _ hmem).nonempty (List.map_eq_nil_iff.mp h)
    have hlisted : (recorded.state ty).map AclEntry.listed = items := by
      rw [AclRows.state, hitems, List.map_map]
      conv_rhs => rw [← List.map_id items]
      exact List.map_congr_left fun i hi =>
        listed_eq ((recorded.listed _ hmem).letters i hi).2 (hcanonical _ hmem i hi)
    rw [if_neg hsome, hlisted]
    rfl

/-- Compared with the recorded rows, the restored ones do not differ. -/
theorem compare_restored (hrole : PlainName role) (hne : role ≠ "") (hrec : recorded.Plain) :
    ∃ cmp, compareDefaultAcl (recorded.asRows role) (recorded.state.rows role) = .ok cmp ∧
      cmp.same = true ∧ cmp.diff = [] ∧ (recorded.Canonical → cmp.exact = true) := by
  have hkinds : ∀ ty ∈ aclTypes (recorded.asRows role) (recorded.state.rows role),
      ∃ o, objKind ty = some o := by
    intro ty hty
    rcases mem_aclTypes.mp hty with h | ⟨r, hr, rfl⟩
    · obtain ⟨items, hmem⟩ := exists_asRows.mp h
      exact (recorded.listed _ hmem).kind.imp fun _ ho => ho.1
    · obtain ⟨ty, hmem, rfl⟩ := List.mem_map.mp hr
      have hall : ∀ ty ∈ objKinds.map Prod.fst, ∃ o, objKind ty = some o := by
        intro ty hmem
        obtain ⟨p, hp, rfl⟩ := List.mem_map.mp hmem
        have hlookup : ∀ p ∈ objKinds, objKind p.1 = some p.2 := by decide
        exact ⟨_, hlookup p hp⟩
      exact hall ty (mem_sortStrings.mp (List.mem_filter.mp hmem).1)
  have hdiffs : (aclTypes (recorded.asRows role) (recorded.state.rows role)).mapM
      (diffType (recorded.asRows role) (recorded.state.rows role)) =
        .ok ((aclTypes (recorded.asRows role) (recorded.state.rows role)).map fun _ => []) := by
    refine mapM_eq_ok fun ty hty => ?_
    obtain ⟨text, hrecorded, hnow⟩ := normaliseAcl_rows hrole hne hrec (hkinds ty hty)
    unfold diffType
    simp only [hrecorded, hnow, ok_bind, ne_eq, not_true_eq_false, if_false]
    rfl
  have hflat : ((aclTypes (recorded.asRows role) (recorded.state.rows role)).map
      fun _ => ([] : List String)).flatten = [] := by
    rw [List.flatten_eq_nil_iff]
    intro l hl
    obtain ⟨_, _, rfl⟩ := List.mem_map.mp hl
    rfl
  unfold compareDefaultAcl
  simp only [hdiffs, ok_bind, hflat]
  refine ⟨_, rfl, decide_eq_true trivial, rfl, fun hcanonical => ?_⟩
  exact List.all_eq_true.mpr fun ty hty =>
    decide_eq_true (aclOf_rows_exact (hkinds ty hty) hcanonical).symm

end RoundTrip

/-- The recorded rows come back: in the database, in the comparison and in their text;
and nothing is run when no text differs. -/
theorem restore_round_trip (recorded current : AclRows) (role schema : String)
    (hrole : PlainName role ∧ role ≠ "") (hrec : recorded.Plain) (hcur : current.Plain) :
    ∃ out, restoreStatements (recorded.asRows role) (current.asRows role) role = .ok out ∧
      restoreDefaultAclSql (recorded.asRows role) (current.asRows role) role schema =
        .ok ("\n".intercalate (out.map (AclStatement.text ("alter default privileges for role " ++
          ident role ++ " in schema " ++ ident schema)))) ∧
      out.foldl execAcl current.state = recorded.state ∧
      (∃ cmp, compareDefaultAcl (recorded.asRows role)
          ((out.foldl execAcl current.state).rows role) = .ok cmp ∧
        cmp.same = true ∧ (recorded.Canonical → cmp.exact = true)) ∧
      ((∀ ty, aclOf (recorded.asRows role) ty = aclOf (current.asRows role) ty) → out = []) := by
  obtain ⟨out, hout, hexec, hempty⟩ := restoreStatements_eq hrole.1 hrole.2 hrec hcur
  obtain ⟨cmp, hcmp, hsame, -, hexact⟩ := compare_restored hrole.1 hrole.2 hrec
  refine ⟨out, hout, ?_, hexec, ⟨cmp, ?_, hsame, hexact⟩, hempty⟩
  · rw [restoreDefaultAclSql, hout]
    rfl
  · rw [hexec]
    exact hcmp

theorem wellListed_tables {i : ListedItem} {items : List ListedItem}
    (hknown : ∀ j ∈ i :: items, ∀ l ∈ j.letters, l.1 ∈ "arwdDxtm".toList)
    (hgrantees : ((i :: items).map ListedItem.grantee).Nodup)
    (hletters : ∀ j ∈ i :: items, j.letters ≠ [] ∧ j.held.Nodup) : WellListed "r" (i :: items) where
  kind := by
    refine ⟨_, rfl, fun j hj l hl => ?_⟩
    have hall : ("arwdDxtm".toList.all fun c => (List.lookup c
      [('a', "insert"), ('r', "select"), ('w', "update"), ('d', "delete"), ('D', "truncate"),
        ('x', "references"), ('t', "trigger"), ('m', "maintain")]).isSome) = true := by decide
    exact List.all_eq_true.mp hall _ (hknown j hj l hl)
  nonempty := List.cons_ne_nil _ _
  grantees := hgrantees
  letters := hletters

/-- Select for everyone, and for `anon` with the grant option. -/
def readerRows : AclRows where
  rows := [("r", [⟨"", [('r', false)]⟩, ⟨"anon", [('r', true), ('w', false)]⟩])]
  types := by decide
  listed := by
    intro r hr
    rw [List.mem_singleton.mp hr]
    exact wellListed_tables (by decide) (by decide) (by decide)

/-- A row that names a role with a space. -/
def auditRows : AclRows where
  rows := [("r", [⟨"Audit Role", [('r', false)]⟩])]
  types := by decide
  listed := by
    intro r hr
    rw [List.mem_singleton.mp hr]
    exact wellListed_tables (by decide) (by decide) (by decide)

def noRows : AclRows := ⟨[], .nil, fun _ hr => absurd hr List.not_mem_nil⟩

theorem restore_round_trip_reader : ∃ out,
    restoreStatements (readerRows.asRows "postgres") (noRows.asRows "postgres") "postgres" = .ok out ∧
      out.foldl execAcl noRows.state = readerRows.state := by
  have hplain : readerRows.Plain := by
    unfold AclRows.Plain PlainName
    decide
  obtain ⟨out, hout, -, hexec, -⟩ := restore_round_trip readerRows noRows "postgres" "public"
    ⟨by unfold PlainName; decide, by decide⟩ hplain (fun _ hr => absurd hr List.not_mem_nil)
  exact ⟨out, hout, hexec⟩

/-- A role name that needs quotes is refused, so its row is not restored. -/
theorem quoted_role_not_restored : ¬ ∀ (recorded current : AclRows) (role : String), PlainName role →
    role ≠ "" → ∃ out,
      restoreStatements (recorded.asRows role) (current.asRows role) role = .ok out ∧
        out.foldl execAcl current.state = recorded.state := by
  intro h
  obtain ⟨out, hout, -⟩ := h auditRows noRows "postgres" (by unfold PlainName; decide) (by decide)
  have htypes : aclTypes (auditRows.asRows "postgres") (noRows.asRows "postgres") = ["r"] := by
    simp [aclTypes, AclRows.asRows, auditRows, noRows, distinct, sortStrings]
  have hquoted : restoreType (auditRows.asRows "postgres") (noRows.asRows "postgres") "postgres" "r" =
      .error ("quoted role names are not supported: " ++ aclOf (auditRows.asRows "postgres") "r") := rfl
  rw [restoreStatements, htypes, List.mapM_cons, hquoted] at hout
  cases hout

end SupabaseLab.PartitionedTenancy
