import Stencil.Proofs.Render.Surviving

/-!
# The account of the elements that are put back

One reinsertion is two sweeps over the template texts of a page.  Its account says for every
wildcard, and for every single placeholder that is there after the wildcards, which elements it
brings.  `exists_account` shows that the result is the page with these elements in the place of the
finds, and that the account balances: a wildcard brings all elements of its kind if it is the first
one of the kind, a single placeholder brings its element if it is the first one for it and no
wildcard names the kind, everything else brings nothing, and so no element comes twice.

Both sweeps have one shape, a key that brings something the first time only (`firstOnly`).
-/

namespace Stencil

variable {α β κ τ : Type}

namespace Part

/-- What a reader finds in the template texts of a page, from left to right. -/
def found (read : Reader α) : List Part → List α
  | [] => []
  | .template s :: parts => Text.foundValues (Text.scan read s) ++ found read parts
  | .value _ :: parts => found read parts

/-- The page with some texts in the place of its finds, from left to right. -/
def refill (read : Reader α) : List Part → List Text → List Part
  | [], _ => []
  | .template s :: parts, texts =>
    let pieces := Text.scan read s
    let n := (Text.foundValues pieces).length
    .template (Text.weave (Text.around pieces) (texts.take n)) :: refill read parts (texts.drop n)
  | .value s :: parts, texts => .value s :: refill read parts texts

/-- A sweep that replaces finds over a state puts what it writes in the place of the finds. -/
theorem mapTemplates_eq_refill (read : Reader α) (write : α → τ → Text × τ) (parts : List Part)
    (t : τ) :
    mapTemplates (fun s t => Text.ofPiecesWith write (Text.scan read s) t) parts t =
      (refill read parts (Text.writeAll write (found read parts) t).1,
        (Text.writeAll write (found read parts) t).2) := by
  induction parts generalizing t with
  | nil => rfl
  | cons part parts ih =>
    cases part with
    | template s =>
      simp only [mapTemplates, ih]
      simp only [found, refill, Text.ofPiecesWith_eq_weave, Text.writeAll_append]
      rw [List.take_left' (Text.length_writeAll ..), List.drop_left' (Text.length_writeAll ..)]
    | value s => simp [mapTemplates, found, refill, ih]

/-- Replacing the wildcards of a page keeps the single placeholders of its template texts. -/
theorem found_sublist_refill {parts : List Part} {texts : List Text}
    (length : texts.length = (found Wildcard.read parts).length) :
    (found Positional.read parts).Sublist
      (found Positional.read (refill Wildcard.read parts texts)) := by
  induction parts generalizing texts with
  | nil => exact List.Sublist.refl _
  | cons part parts ih =>
    cases part with
    | template s =>
      rw [found, List.length_append] at length
      have here := @Positional.placesOf_sublist s (texts.take _) (List.length_take_of_le (by omega))
      exact here.append (ih (by rw [List.length_drop]; omega))
    | value s => exact ih length

end Part

section FirstOnly

variable [DecidableEq κ]

/-- What some keys bring, each the first time only and not if it was seen before.  A key may be
missing and then brings nothing. -/
def firstOnly (bring : κ → List β) : (seen : List κ) → List (Option κ) → List (List β)
  | _, [] => []
  | seen, none :: keys => [] :: firstOnly bring seen keys
  | seen, some k :: keys =>
    if k ∈ seen then [] :: firstOnly bring seen keys
    else bring k :: firstOnly bring (k :: seen) keys

variable {bring : κ → List β}

@[simp] theorem length_firstOnly (seen : List κ) (keys : List (Option κ)) :
    (firstOnly bring seen keys).length = keys.length := by
  fun_induction firstOnly bring seen keys with
  | case1 seen => rfl
  | case2 seen keys ih => simp [ih]
  | case3 seen k keys known ih => simp [ih]
  | case4 seen k keys new ih => simp [ih]

/-- A missing key brings nothing. -/
theorem getElem?_firstOnly_none {seen : List κ} {keys : List (Option κ)} {i : Nat}
    (h : keys[i]? = some none) : (firstOnly bring seen keys)[i]? = some [] := by
  fun_induction firstOnly bring seen keys generalizing i with
  | case1 seen => simp at h
  | case2 seen keys ih =>
    cases i with
    | zero => rfl
    | succ i => simpa using ih (by simpa using h)
  | case3 seen k keys known ih =>
    cases i with
    | zero => rfl
    | succ i => simpa using ih (by simpa using h)
  | case4 seen k keys new ih =>
    cases i with
    | zero => simp at h
    | succ i => simpa using ih (by simpa using h)

/-- A key brings what it has where it comes first, and nothing where it was seen before. -/
theorem getElem?_firstOnly {seen : List κ} {keys : List (Option κ)} {i : Nat} {k : κ}
    (h : keys[i]? = some (some k)) :
    (firstOnly bring seen keys)[i]? =
      some (if k ∈ seen ∨ some k ∈ keys.take i then [] else bring k) := by
  fun_induction firstOnly bring seen keys generalizing i with
  | case1 seen => simp at h
  | case2 seen keys ih =>
    cases i with
    | zero => simp at h
    | succ i => simpa using ih (by simpa using h)
  | case3 seen j keys known ih =>
    cases i with
    | zero =>
      obtain rfl : j = k := by simpa using h
      simp [known]
    | succ i =>
      have rest := ih (i := i) (by simpa using h)
      simp only [List.getElem?_cons_succ, rest, List.take_succ_cons, List.mem_cons,
        Option.some.injEq]
      by_cases same : k = j
      · simp [same, known]
      · simp [same]
  | case4 seen j keys new ih =>
    cases i with
    | zero =>
      obtain rfl : j = k := by simpa using h
      simp [new]
    | succ i =>
      have rest := ih (i := i) (by simpa using h)
      simp only [List.getElem?_cons_succ, rest, List.take_succ_cons, List.mem_cons,
        Option.some.injEq, or_left_comm, or_assoc]

/-- If all that a key brings bears the key, then each thing comes as often as its key brings it,
or not at all. -/
theorem count_flatten_firstOnly [BEq β] [LawfulBEq β] (key : β → κ)
    (bears : ∀ k, ∀ b ∈ bring k, key b = k) (b : β) (seen : List κ) (keys : List (Option κ)) :
    (firstOnly bring seen keys).flatten.count b =
      if key b ∉ seen ∧ some (key b) ∈ keys then (bring (key b)).count b else 0 := by
  fun_induction firstOnly bring seen keys with
  | case1 seen => simp
  | case2 seen keys ih => simpa using ih
  | case3 seen k keys known ih =>
    have other (new : key b ∉ seen) : key b ≠ k := fun same => new (same ▸ known)
    rw [List.flatten_cons, List.nil_append, ih]
    by_cases new : key b ∈ seen
    · simp [new]
    · simp [new, other new]
  | case4 seen k keys new ih =>
    rw [List.flatten_cons, List.count_append, ih]
    -- What bears this key comes here and not again; all else comes later if at all.
    by_cases same : key b = k
    · subst same
      simp [new]
    · have none : (bring k).count b = 0 := List.count_eq_zero.mpr fun h => same (bears k b h)
      simp [none, same]

end FirstOnly

/-- The elements of a kind by their numbers, in table order. -/
def numbered (tags : TagTable) (k : TagKind) : List (TagKind × Nat) :=
  (List.range' 1 (tags.count k)).map (k, ·)

/-- An element by its number, if there is one. -/
def single (tags : TagTable) (place : TagKind × Nat) : List (TagKind × Nat) :=
  if 1 ≤ place.2 ∧ place.2 ≤ tags.count place.1 then [place] else []

/-- What stands in a page for some elements: each with its nonce, on lines of their own. -/
def written (tags : TagTable) (nonce : Option Nonce) (places : List (TagKind × Nat)) : Text :=
  Text.join ['\n'] (places.map fun (k, n) => Nonced.apply nonce k ((tags.get? k n).getD []))

section Written

variable {tags : TagTable} {nonce : Option Nonce}

@[simp] theorem written_nil : written tags nonce [] = [] := rfl

theorem written_singleton (k : TagKind) (n : Nat) :
    written tags nonce [(k, n)] = Nonced.apply nonce k ((tags.get? k n).getD []) := by
  simp [written, Text.join, List.intercalate]

theorem get?_eq_none {k : TagKind} {n : Nat} (h : ¬(1 ≤ n ∧ n ≤ tags.count k)) :
    tags.get? k n = none := by
  cases n with
  | zero => rfl
  | succ n =>
    rw [TagTable.get?, List.getElem?_eq_none_iff]
    unfold TagTable.count at h
    omega

theorem get?_isSome {k : TagKind} {n : Nat} (h : 1 ≤ n ∧ n ≤ tags.count k) :
    ∃ element, tags.get? k n = some element := by
  obtain ⟨m, rfl⟩ := Nat.exists_eq_add_of_le' h.1
  have inside : m < (tags.entries k).length := by
    have := h.2
    unfold TagTable.count at this
    omega
  exact ⟨(tags.entries k)[m], List.getElem?_eq_getElem inside⟩

/-- All elements of a kind are written as its wildcard brings them. -/
theorem written_numbered (k : TagKind) :
    written tags nonce (numbered tags k) =
      Text.join ['\n'] ((tags.entries k).map (Nonced.apply nonce k)) := by
  have elements : (List.range' 1 (tags.count k)).map (fun n => (tags.get? k n).getD []) =
      tags.entries k := by
    apply List.ext_getElem
    · simp [TagTable.count]
    · intro i _ inside
      simp [TagTable.get?, Nat.add_comm 1 i, inside]
  rw [written, numbered, List.map_map, ← elements, List.map_map]
  rfl

theorem written_single (k : TagKind) (n : Nat) :
    written tags nonce (single tags (k, n)) =
      ((tags.get? k n).map (Nonced.apply nonce k)).getD [] := by
  unfold single
  by_cases h : 1 ≤ n ∧ n ≤ tags.count k
  · obtain ⟨element, found⟩ := get?_isSome h
    rw [if_pos h, written_singleton, found]
    rfl
  · rw [if_neg h, get?_eq_none h]
    rfl

/-- The wildcards from left to right bring the elements of each kind the first time. -/
theorem writeAll_wildcard (kinds : List (Option TagKind)) (spent : List TagKind) :
    (Text.writeAll (Wildcard.write tags nonce) kinds spent).1 =
      (firstOnly (numbered tags) spent kinds).map (written tags nonce) := by
  fun_induction firstOnly (numbered tags) spent kinds with
  | case1 spent => rfl
  | case2 spent kinds ih => simp [Text.writeAll, Wildcard.write, ih]
  | case3 spent k kinds known ih => simp [Text.writeAll, Wildcard.write, known, ih]
  | case4 spent k kinds new ih =>
    simp [Text.writeAll, Wildcard.write, new, ih, written_numbered]

/-- The kinds that are spent in the end were spent before or are named by a wildcard. -/
theorem mem_spent (kinds : List (Option TagKind)) (spent : List TagKind) (k : TagKind) :
    k ∈ (Text.writeAll (Wildcard.write tags nonce) kinds spent).2 ↔
      k ∈ spent ∨ some k ∈ kinds := by
  induction kinds generalizing spent with
  | nil => simp [Text.writeAll]
  | cons kind kinds ih =>
    rw [Text.writeAll, ih]
    cases kind with
    | none => simp [Wildcard.write]
    | some j =>
      by_cases known : j ∈ spent
      · by_cases same : k = j
        · simp [Wildcard.write, known, same]
        · simp [Wildcard.write, known, same]
      · simp [Wildcard.write, known, or_left_comm, or_assoc]

/-- What a placeholder asks for, unless its kind is spent. -/
def unspent (spent : List TagKind) : Option (TagKind × Nat) → Option (TagKind × Nat)
  | some (k, n) => if k ∈ spent then none else some (k, n)
  | none => none

/-- Single placeholders bring an element the first time, unless a wildcard has brought its kind. -/
theorem writeAll_positional (spent : List TagKind) (places : List (Option (TagKind × Nat)))
    (used : List (TagKind × Nat)) :
    (Text.writeAll (Positional.write tags nonce spent) places used).1 =
      (firstOnly (single tags) used (places.map (unspent spent))).map (written tags nonce) := by
  induction places generalizing used with
  | nil => rfl
  | cons place places ih =>
    rw [List.map_cons]
    cases place with
    | none => simp [Text.writeAll, Positional.write, unspent, firstOnly, ih]
    | some place =>
      obtain ⟨k, n⟩ := place
      by_cases gone : k ∈ spent
      · simp [Text.writeAll, Positional.write, unspent, firstOnly, ih, gone]
      · by_cases known : (k, n) ∈ used
        · simp [Text.writeAll, Positional.write, unspent, firstOnly, ih, gone, known]
        · simp [Text.writeAll, Positional.write, unspent, firstOnly, ih, gone, known,
            written_single]

end Written

/-- For every wildcard, and for every single placeholder after the wildcards, the elements that it
brings. -/
structure Account where
  wildcards : List (List (TagKind × Nat))
  singles : List (List (TagKind × Nat))

namespace Account

/-- The page with what the wildcards bring. -/
def afterWildcards (a : Account) (tags : TagTable) (nonce : Option Nonce) (parts : List Part) :
    List Part :=
  Part.refill Wildcard.read parts (a.wildcards.map (written tags nonce))

def page (a : Account) (tags : TagTable) (nonce : Option Nonce) (parts : List Part) : List Part :=
  Part.refill Positional.read (a.afterWildcards tags nonce parts)
    (a.singles.map (written tags nonce))

def kinds (parts : List Part) : List (Option TagKind) := Part.found Wildcard.read parts

/-- The elements that the single placeholders ask for once the wildcards are replaced. -/
def places (a : Account) (tags : TagTable) (nonce : Option Nonce) (parts : List Part) :
    List (Option (TagKind × Nat)) :=
  Part.found Positional.read (a.afterWildcards tags nonce parts)

/-- The rules of an account. -/
structure Balances (a : Account) (tags : TagTable) (nonce : Option Nonce) (parts : List Part) :
    Prop where
  /-- Every wildcard and every single placeholder has its entry. -/
  wildcards_length : a.wildcards.length = (kinds parts).length
  singles_length : a.singles.length = (a.places tags nonce parts).length
  /-- The single placeholders of the page are still there after the wildcards. -/
  kept : (Part.found Positional.read parts).Sublist (a.places tags nonce parts)
  /-- The first wildcard of a kind brings all elements of the kind, in table order. -/
  first_wildcard : ∀ (i : Nat) k, (kinds parts)[i]? = some (some k) →
    some k ∉ (kinds parts).take i → a.wildcards[i]? = some (numbered tags k)
  later_wildcard : ∀ (i : Nat) k, (kinds parts)[i]? = some (some k) →
    some k ∈ (kinds parts).take i → a.wildcards[i]? = some []
  /-- A wildcard in letters that name no kind brings nothing. -/
  unnamed_wildcard : ∀ i : Nat, (kinds parts)[i]? = some none → a.wildcards[i]? = some []
  /-- A single placeholder of a kind that has a wildcard anywhere brings nothing. -/
  spent_single : ∀ (i : Nat) k n, (a.places tags nonce parts)[i]? = some (some (k, n)) →
    some k ∈ kinds parts → a.singles[i]? = some []
  /-- Of a kind without a wildcard the first placeholder for an element brings it. -/
  first_single : ∀ (i : Nat) k n, (a.places tags nonce parts)[i]? = some (some (k, n)) →
    some k ∉ kinds parts → 1 ≤ n → n ≤ tags.count k →
    some (k, n) ∉ (a.places tags nonce parts).take i → a.singles[i]? = some [(k, n)]
  later_single : ∀ (i : Nat) k n, (a.places tags nonce parts)[i]? = some (some (k, n)) →
    some (k, n) ∈ (a.places tags nonce parts).take i → a.singles[i]? = some []
  /-- A number out of range brings nothing, and neither does what is no kind or no number. -/
  single_out_of_range : ∀ (i : Nat) k n, (a.places tags nonce parts)[i]? = some (some (k, n)) →
    (n = 0 ∨ tags.count k < n) → a.singles[i]? = some []
  unnamed_single : ∀ i : Nat, (a.places tags nonce parts)[i]? = some none → a.singles[i]? = some []
  /-- All in all an element comes once if its kind has a wildcard or a placeholder asks for it, and
  else not at all. -/
  once : ∀ k n, (a.wildcards.flatten ++ a.singles.flatten).count (k, n) =
    if (1 ≤ n ∧ n ≤ tags.count k) ∧
      (some k ∈ kinds parts ∨ some (k, n) ∈ a.places tags nonce parts) then 1 else 0

variable {tags : TagTable} {nonce : Option Nonce} {parts : List Part}

/-- What a placeholder asks for counts exactly if its kind is not spent. -/
theorem mem_map_unspent {spent : List TagKind} {places : List (Option (TagKind × Nat))}
    {k : TagKind} {n : Nat} :
    some (k, n) ∈ places.map (unspent spent) ↔ some (k, n) ∈ places ∧ k ∉ spent := by
  rw [List.mem_map]
  constructor
  · rintro ⟨place, member, same⟩
    cases place with
    | none => simp [unspent] at same
    | some place =>
      obtain ⟨j, m⟩ := place
      by_cases gone : j ∈ spent
      · simp [unspent, gone] at same
      · obtain ⟨rfl, rfl⟩ : j = k ∧ m = n := by simpa [unspent, gone] using same
        exact ⟨member, gone⟩
  · rintro ⟨member, left⟩
    exact ⟨some (k, n), member, by simp [unspent, left]⟩

def ofPage (tags : TagTable) (nonce : Option Nonce) (parts : List Part) : Account :=
  let wildcards := firstOnly (numbered tags) [] (kinds parts)
  let spent := (Text.writeAll (Wildcard.write tags nonce) (kinds parts) []).2
  let places := Part.found Positional.read
    (Part.refill Wildcard.read parts (wildcards.map (written tags nonce)))
  ⟨wildcards, firstOnly (single tags) [] (places.map (unspent spent))⟩

/-- The two sweeps leave the page of the account. -/
theorem swept_eq_page :
    swept tags nonce parts = (ofPage tags nonce parts).page tags nonce parts := by
  have wildcards := Part.mapTemplates_eq_refill Wildcard.read (Wildcard.write tags nonce) parts []
  rw [writeAll_wildcard] at wildcards
  unfold swept Wildcard.replace
  rw [wildcards]
  have singles := Part.mapTemplates_eq_refill Positional.read
    (Positional.write tags nonce
      (Text.writeAll (Wildcard.write tags nonce) (Part.found Wildcard.read parts) []).2)
    (Part.refill Wildcard.read parts
      ((firstOnly (numbered tags) [] (Part.found Wildcard.read parts)).map (written tags nonce))) []
  rw [writeAll_positional] at singles
  exact congrArg Prod.fst singles

theorem bears_numbered (k : TagKind) (place : TagKind × Nat) (h : place ∈ numbered tags k) :
    place.1 = k := by
  obtain ⟨n, _, rfl⟩ := List.mem_map.mp h
  rfl

theorem mem_numbered {k j : TagKind} {n : Nat} :
    (j, n) ∈ numbered tags k ↔ j = k ∧ 1 ≤ n ∧ n ≤ tags.count k := by
  rw [numbered, List.mem_map]
  constructor
  · rintro ⟨m, inside, same⟩
    obtain ⟨rfl, rfl⟩ := Prod.mk.inj same
    obtain ⟨low, high⟩ := List.mem_range'_1.mp inside
    exact ⟨rfl, low, by omega⟩
  · rintro ⟨rfl, inside⟩
    exact ⟨n, List.mem_range'_1.mpr (by omega), rfl⟩

theorem nodup_numbered (k : TagKind) : (numbered tags k).Nodup := by
  have distinct : (List.range' 1 (tags.count k)).Nodup := List.nodup_range'
  exact List.Pairwise.map _ (fun _ _ differ same => differ (Prod.mk.inj same).2) distinct

theorem count_numbered (k : TagKind) (n : Nat) :
    (numbered tags k).count (k, n) = if 1 ≤ n ∧ n ≤ tags.count k then 1 else 0 := by
  rw [List.Nodup.count (nodup_numbered k)]
  simp [mem_numbered]

theorem bears_single (place other : TagKind × Nat) (h : other ∈ single tags place) :
    other = place := by
  unfold single at h
  split at h
  · exact List.mem_singleton.mp h
  · exact absurd h List.not_mem_nil

theorem count_single (place : TagKind × Nat) :
    (single tags place).count place =
      if 1 ≤ place.2 ∧ place.2 ≤ tags.count place.1 then 1 else 0 := by
  unfold single
  split <;> simp

def spentKinds (tags : TagTable) (nonce : Option Nonce) (parts : List Part) : List TagKind :=
  (Text.writeAll (Wildcard.write tags nonce) (kinds parts) []).2

theorem mem_spentKinds {k : TagKind} : k ∈ spentKinds tags nonce parts ↔ some k ∈ kinds parts := by
  rw [spentKinds, mem_spent]
  simp

theorem ofPage_wildcards :
    (ofPage tags nonce parts).wildcards = firstOnly (numbered tags) [] (kinds parts) :=
  rfl

theorem ofPage_singles :
    (ofPage tags nonce parts).singles = firstOnly (single tags) []
      (((ofPage tags nonce parts).places tags nonce parts).map
        (unspent (spentKinds tags nonce parts))) :=
  rfl

theorem getElem?_wildcards {i : Nat} {k : TagKind} (h : (kinds parts)[i]? = some (some k)) :
    (ofPage tags nonce parts).wildcards[i]? =
      some (if some k ∈ (kinds parts).take i then [] else numbered tags k) := by
  rw [ofPage_wildcards, getElem?_firstOnly h]
  simp

/-- What a single placeholder brings, told by what wildcards and the places before it ask for. -/
theorem getElem?_singles {i : Nat} {k : TagKind} {n : Nat}
    (h : ((ofPage tags nonce parts).places tags nonce parts)[i]? = some (some (k, n))) :
    (ofPage tags nonce parts).singles[i]? =
      some (if some k ∈ kinds parts ∨
          some (k, n) ∈ ((ofPage tags nonce parts).places tags nonce parts).take i
        then [] else single tags (k, n)) := by
  rw [ofPage_singles]
  generalize (ofPage tags nonce parts).places tags nonce parts = places at h ⊢
  -- A spent kind is a missing key; any other key is as new as its placeholder.
  by_cases gone : k ∈ spentKinds tags nonce parts
  · have key : (places.map (unspent (spentKinds tags nonce parts)))[i]? = some none := by
      simp [h, unspent, gone]
    rw [getElem?_firstOnly_none key, if_pos (.inl (mem_spentKinds.mp gone))]
  · have key : (places.map (unspent (spentKinds tags nonce parts)))[i]? = some (some (k, n)) := by
      simp [h, unspent, gone]
    have earlier : some (k, n) ∈ (places.map (unspent (spentKinds tags nonce parts))).take i ↔
        some (k, n) ∈ places.take i := by
      rw [← List.map_take, mem_map_unspent]
      simp [gone]
    have open_ : some k ∉ kinds parts := fun named => gone (mem_spentKinds.mpr named)
    rw [getElem?_firstOnly key]
    simp [earlier, open_]

theorem count_wildcards (k : TagKind) (n : Nat) :
    (ofPage tags nonce parts).wildcards.flatten.count (k, n) =
      if (1 ≤ n ∧ n ≤ tags.count k) ∧ some k ∈ kinds parts then 1 else 0 := by
  rw [ofPage_wildcards, count_flatten_firstOnly Prod.fst bears_numbered, count_numbered]
  by_cases named : some k ∈ kinds parts
  · simp [named]
  · simp [named]

/-- An element comes back from a single placeholder once if one asks for it and no wildcard names
its kind, and never otherwise. -/
theorem count_singles (k : TagKind) (n : Nat) :
    (ofPage tags nonce parts).singles.flatten.count (k, n) =
      if (1 ≤ n ∧ n ≤ tags.count k) ∧ some k ∉ kinds parts ∧
        some (k, n) ∈ (ofPage tags nonce parts).places tags nonce parts then 1 else 0 := by
  rw [ofPage_singles, count_flatten_firstOnly id bears_single, id_eq, count_single]
  simp only [mem_map_unspent, mem_spentKinds]
  by_cases named : some k ∈ kinds parts
  · simp [named]
  · by_cases asked : some (k, n) ∈ (ofPage tags nonce parts).places tags nonce parts
    · simp [named, asked]
    · simp [named, asked]

/-- The account of a reinsertion meets all its rules. -/
theorem balances_ofPage : (ofPage tags nonce parts).Balances tags nonce parts := by
  constructor
  case wildcards_length => simp [ofPage_wildcards]
  case singles_length => simp [ofPage_singles]
  case kept => exact Part.found_sublist_refill (by simp [ofPage_wildcards, kinds])
  case first_wildcard =>
    intro i k named first
    rw [getElem?_wildcards named, if_neg first]
  case later_wildcard =>
    intro i k named later
    rw [getElem?_wildcards named, if_pos later]
  case unnamed_wildcard =>
    intro i unnamed
    exact getElem?_firstOnly_none unnamed
  case spent_single =>
    intro i k n asked spent
    rw [getElem?_singles asked, if_pos (.inl spent)]
  case first_single =>
    intro i k n asked unspent low high first
    rw [getElem?_singles asked, if_neg (by simp [unspent, first])]
    simp [single, low, high]
  case later_single =>
    intro i k n asked later
    rw [getElem?_singles asked, if_pos (.inr later)]
  case single_out_of_range =>
    intro i k n asked out
    have nothing : single tags (k, n) = [] := if_neg (by dsimp only; omega)
    rw [getElem?_singles asked, nothing, ite_self]
  case unnamed_single =>
    intro i unnamed
    rw [ofPage_singles]
    exact getElem?_firstOnly_none (by simp [unnamed, unspent])
  case once =>
    intro k n
    rw [List.count_append, count_wildcards, count_singles]
    by_cases named : some k ∈ kinds parts
    · simp [named]
    · simp [named]

end Account

/-- Putting the elements of a table back into a page writes in the place of its wildcards and of its
single placeholders what an account that balances lists for them, and nothing else changes: the
values and the order of the parts are kept. -/
theorem exists_account (tags : TagTable) (nonce : Option Nonce) (parts : List Part) :
    ∃ a : Account, a.Balances tags nonce parts ∧
      reinsertTags tags nonce parts = Part.join (a.page tags nonce parts) ∧
      (a.page tags nonce parts).map Part.value? = parts.map Part.value? := by
  refine ⟨Account.ofPage tags nonce parts, Account.balances_ofPage, ?_, ?_⟩
  · rw [reinsertTags_eq_join, Account.swept_eq_page]
  · rw [← Account.swept_eq_page, map_value?_swept]

end Stencil
