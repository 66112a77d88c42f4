import Mathlib

/-!
# Groups of readers

The readers of a group share the partitions of a log and the committed offset of
each.  A coordinator assigns the partitions, and a reader that adopts its
assignment starts at the committed offsets.  A reader may go on with an old
assignment, but only one that adopted the latest may commit.
-/

namespace BlockchainDataCollection.Effect

variable {Partition : Type}

structure Reader (Partition : Type) where
  assigned : Partition → Bool
  /-- The reader has adopted the latest assignment. -/
  current : Bool
  /-- The offset that comes next, by partition. -/
  position : Partition → ℕ
  /-- The places that were read, the latest one first. -/
  read : List (Partition × ℕ)

namespace Reader

def start : Reader Partition where
  assigned _ := false
  current := false
  position _ := 0
  read := []

def revoke (reader : Reader Partition) : Reader Partition :=
  { reader with current := false }

/-- Go on with these partitions, from the committed offsets. -/
def adopt (reader : Reader Partition) (committed : Partition → ℕ)
    (partitions : Partition → Bool) : Reader Partition :=
  { reader with
    assigned := partitions
    current := true
    position := fun partition =>
      if partitions partition then committed partition else reader.position partition }

def advance [DecidableEq Partition] (reader : Reader Partition) (partition : Partition) :
    Reader Partition :=
  { reader with
    position := Function.update reader.position partition (reader.position partition + 1)
    read := (partition, reader.position partition) :: reader.read }

section Advance

variable [DecidableEq Partition] (reader : Reader Partition) (partition : Partition)

@[simp]
theorem position_advance_self :
    (reader.advance partition).position partition = reader.position partition + 1 :=
  Function.update_self _ _ _

theorem position_advance_of_ne {target : Partition} (h : target ≠ partition) :
    (reader.advance partition).position target = reader.position target :=
  Function.update_of_ne h _ _

theorem position_le_advance (target : Partition) :
    reader.position target ≤ (reader.advance partition).position target := by
  by_cases h : target = partition
  · rw [h, position_advance_self]
    exact Nat.le_succ _
  · exact (reader.position_advance_of_ne partition h).ge

end Advance

/-- The reader moves committed offsets of its partitions forward, at most to its
positions. -/
structure Commits (reader : Reader Partition) (committed committed' : Partition → ℕ) :
    Prop where
  current : reader.current
  assigned : ∀ partition, reader.assigned partition →
    committed partition ≤ committed' partition ∧ committed' partition ≤ reader.position partition
  other : ∀ partition, reader.assigned partition = false →
    committed' partition = committed partition

/-- All that the reader has read of its partitions is committed. -/
def Settled (reader : Reader Partition) (committed : Partition → ℕ) : Prop :=
  reader.current → ∀ partition, reader.assigned partition →
    reader.position partition ≤ committed partition

end Reader

structure ReaderGroup (Partition : Type) where
  committed : Partition → ℕ
  /-- The reader that a partition is assigned to, by its index. -/
  owner : Partition → Option ℕ
  readers : List (Reader Partition)

namespace ReaderGroup

def start : ReaderGroup Partition where
  committed _ := 0
  owner _ := none
  readers := []

variable [DecidableEq Partition]

/-- A step of the group.  Where the handover is clean, readers commit before the
partitions are assigned anew, and stop reading until they have adopted theirs. -/
inductive Step (clean : Prop) : ReaderGroup Partition → ReaderGroup Partition → Prop
  | join (committed owner readers) :
      Step clean ⟨committed, owner, readers⟩ ⟨committed, owner, readers ++ [.start]⟩
  | assign (committed owner owner' readers) :
      (clean → ∀ reader ∈ readers, reader.Settled committed) →
      Step clean ⟨committed, owner, readers⟩ ⟨committed, owner', readers.map Reader.revoke⟩
  | adopt (committed owner before reader after) :
      reader.current = false →
      Step clean ⟨committed, owner, before ++ reader :: after⟩
        ⟨committed, owner, before ++ reader.adopt committed
          (fun partition => owner partition = some before.length) :: after⟩
  | advance (committed owner before reader after partition) :
      reader.assigned partition → (clean → reader.current) →
      Step clean ⟨committed, owner, before ++ reader :: after⟩
        ⟨committed, owner, before ++ reader.advance partition :: after⟩
  | commit (committed committed' owner before reader after) :
      reader.Commits committed committed' →
      Step clean ⟨committed, owner, before ++ reader :: after⟩
        ⟨committed', owner, before ++ reader :: after⟩

/-! ## Replacing an item -/

section Lists

variable {Item : Type} {before after : List Item} {item item' : Item}

theorem getElem?_replaced {index : ℕ} {other : Item}
    (h : (before ++ item' :: after)[index]? = some other) :
    index = before.length ∧ other = item' ∨
      index ≠ before.length ∧ (before ++ item :: after)[index]? = some other := by
  rcases lt_trichotomy index before.length with hlt | rfl | hgt
  · rw [List.getElem?_append_left hlt] at h ⊢
    exact .inr ⟨hlt.ne, h⟩
  · simp only [List.getElem?_append_right le_rfl, Nat.sub_self, List.getElem?_cons_zero,
      Option.some.injEq] at h
    exact .inl ⟨rfl, h.symm⟩
  · obtain ⟨later, rfl⟩ := Nat.exists_eq_add_of_lt hgt
    have hsub : before.length + later + 1 - before.length = later + 1 := by omega
    rw [List.getElem?_append_right (by omega), hsub, List.getElem?_cons_succ] at h ⊢
    exact .inr ⟨hgt.ne', h⟩

theorem getElem?_append_singleton {items : List Item} {index : ℕ} {other : Item}
    (h : (items ++ [item])[index]? = some other) :
    items[index]? = some other ∨ other = item := by
  rcases lt_or_ge index items.length with hlt | hge
  · rw [List.getElem?_append_left hlt] at h
    exact .inl h
  · rw [List.getElem?_append_right hge] at h
    exact .inr (List.mem_singleton.mp (List.mem_of_getElem? h))

theorem mem_replaced {other : Item} (h : other ∈ before ++ item' :: after) :
    other = item' ∨ other ∈ before ++ item :: after := by
  simp only [List.mem_append, List.mem_cons] at h ⊢
  rcases h with hother | rfl | hother
  · exact .inr (.inl hother)
  · exact .inl rfl
  · exact .inr (.inr (.inr hother))

theorem exists_mem_replaced {P : Item → Prop} (hitem : P item → P item')
    (h : ∃ other ∈ before ++ item :: after, P other) :
    ∃ other ∈ before ++ item' :: after, P other := by
  simp only [List.mem_append, List.mem_cons] at h ⊢
  obtain ⟨other, hother | rfl | hother, hP⟩ := h
  · exact ⟨other, .inl hother, hP⟩
  · exact ⟨item', .inr (.inl rfl), hitem hP⟩
  · exact ⟨other, .inr (.inr hother), hP⟩

end Lists

/-! ## What is committed was read -/

/-- A partition of a current reader is its own, and what it has read of it lies
between the committed offset and its position. -/
structure Tracks (committed : Partition → ℕ) (owner : Partition → Option ℕ) (index : ℕ)
    (reader : Reader Partition) (partition : Partition) : Prop where
  owned : owner partition = some index
  ahead : committed partition ≤ reader.position partition
  pending : ∀ offset, committed partition ≤ offset → offset < reader.position partition →
    (partition, offset) ∈ reader.read

structure Invariant (group : ReaderGroup Partition) : Prop where
  tracked : ∀ index reader, group.readers[index]? = some reader → reader.current →
    ∀ partition, reader.assigned partition →
      Tracks group.committed group.owner index reader partition
  covered : ∀ partition offset, offset < group.committed partition →
    ∃ reader ∈ group.readers, (partition, offset) ∈ reader.read

variable {clean : Prop} {group group' : ReaderGroup Partition} {committed : Partition → ℕ}
  {owner : Partition → Option ℕ} {before after readers : List (Reader Partition)}
  {reader : Reader Partition}

omit [DecidableEq Partition]

theorem invariant_start : Invariant (start : ReaderGroup Partition) where
  tracked _ _ h := by cases h
  covered _ _ h := by cases h

namespace Invariant

theorem join (h : Invariant ⟨committed, owner, readers⟩) :
    Invariant ⟨committed, owner, readers ++ [.start]⟩ where
  tracked index reader hreader hcurrent := by
    rcases getElem?_append_singleton hreader with hreader | rfl
    · exact h.tracked index reader hreader hcurrent
    · cases hcurrent
  covered partition offset hoffset := by
    obtain ⟨reader, hreader, hread⟩ := h.covered partition offset hoffset
    exact ⟨reader, List.mem_append_left _ hreader, hread⟩

/-- Nobody is current after the partitions are assigned anew. -/
theorem assign (h : Invariant ⟨committed, owner, readers⟩) (owner' : Partition → Option ℕ) :
    Invariant ⟨committed, owner', readers.map Reader.revoke⟩ where
  tracked index reader hreader hcurrent := by
    obtain ⟨other, _, rfl⟩ := List.mem_map.mp (List.mem_of_getElem? hreader)
    cases hcurrent
  covered partition offset hoffset := by
    obtain ⟨reader, hreader, hread⟩ := h.covered partition offset hoffset
    exact ⟨reader.revoke, List.mem_map_of_mem hreader, hread⟩

theorem adopt (h : Invariant ⟨committed, owner, before ++ reader :: after⟩) :
    Invariant ⟨committed, owner, before ++ reader.adopt committed
      (fun partition => owner partition = some before.length) :: after⟩ where
  tracked index other hother hcurrent partition hassigned := by
    rcases getElem?_replaced hother with ⟨rfl, rfl⟩ | ⟨_, hother⟩
    · have hposition : (reader.adopt committed fun partition =>
          owner partition = some before.length).position partition = committed partition :=
        if_pos hassigned
      refine ⟨of_decide_eq_true hassigned, hposition.ge, fun offset hfrom hto => ?_⟩
      exact absurd (hto.trans_eq hposition) hfrom.not_gt
    · exact h.tracked index other hother hcurrent partition hassigned
  covered partition offset hoffset := by
    have hread : (partition, offset) ∈ reader.read → (partition, offset) ∈ (reader.adopt committed
        fun partition => owner partition = some before.length).read := id
    exact exists_mem_replaced hread (h.covered partition offset hoffset)

theorem advance [DecidableEq Partition]
    (h : Invariant ⟨committed, owner, before ++ reader :: after⟩) (partition : Partition) :
    Invariant ⟨committed, owner, before ++ reader.advance partition :: after⟩ where
  tracked index other hother hcurrent target hassigned := by
    rcases getElem?_replaced hother with ⟨rfl, rfl⟩ | ⟨_, hother⟩
    · have htracks := h.tracked before.length reader (by simp) hcurrent target hassigned
      refine ⟨htracks.owned, htracks.ahead.trans (reader.position_le_advance partition target),
        fun offset hfrom hto => ?_⟩
      by_cases htarget : target = partition
      · subst htarget
        rw [reader.position_advance_self] at hto
        rcases Nat.lt_succ_iff_lt_or_eq.mp hto with hto | rfl
        · exact List.mem_cons_of_mem _ (htracks.pending offset hfrom hto)
        · exact List.mem_cons_self
      · rw [reader.position_advance_of_ne partition htarget] at hto
        exact List.mem_cons_of_mem _ (htracks.pending offset hfrom hto)
    · exact h.tracked index other hother hcurrent target hassigned
  covered target offset hoffset :=
    exists_mem_replaced (List.mem_cons_of_mem _) (h.covered target offset hoffset)

/-- Only the owner of a partition moves its committed offset. -/
theorem commit (h : Invariant ⟨committed, owner, before ++ reader :: after⟩)
    {committed' : Partition → ℕ} (hcommits : reader.Commits committed committed') :
    Invariant ⟨committed', owner, before ++ reader :: after⟩ where
  tracked index other hother hcurrent partition hassigned := by
    have htracks := h.tracked index other hother hcurrent partition hassigned
    cases hmine : reader.assigned partition with
    | false =>
        have hsame := hcommits.other partition hmine
        exact ⟨htracks.owned, hsame.le.trans htracks.ahead, fun offset hfrom hto =>
          htracks.pending offset (hsame.ge.trans hfrom) hto⟩
    | true =>
        have hreader := h.tracked before.length reader (by simp) hcommits.current partition hmine
        obtain rfl : before.length = index :=
          Option.some.inj (hreader.owned.symm.trans htracks.owned)
        obtain rfl : reader = other := by simpa using hother
        obtain ⟨hforward, hbound⟩ := hcommits.assigned partition hmine
        exact ⟨htracks.owned, hbound, fun offset hfrom hto =>
          htracks.pending offset (hforward.trans hfrom) hto⟩
  covered partition offset hoffset := by
    rcases lt_or_ge offset (committed partition) with hbefore | hbehind
    · exact h.covered partition offset hbefore
    · cases hmine : reader.assigned partition with
      | false => exact absurd (hcommits.other partition hmine ▸ hoffset) hbehind.not_gt
      | true =>
          have hreader := h.tracked before.length reader (by simp) hcommits.current partition hmine
          have hbound := (hcommits.assigned partition hmine).2
          exact ⟨reader, List.mem_append_right _ List.mem_cons_self,
            hreader.pending offset hbehind (hoffset.trans_le hbound)⟩

end Invariant

variable [DecidableEq Partition]

/-- Step lemma: every step keeps the invariant. -/
theorem invariant_step (hstep : Step clean group group') (h : Invariant group) :
    Invariant group' := by
  cases hstep with
  | join => exact h.join
  | assign _ _ owner' => exact h.assign owner'
  | adopt => exact h.adopt
  | advance _ _ _ _ _ partition => exact h.advance partition
  | commit _ _ _ _ _ _ hcommits => exact h.commit hcommits

/-- Run lemma: so does every run. -/
theorem invariant_of_steps (hsteps : Relation.ReflTransGen (Step clean) group group')
    (h : Invariant group) : Invariant group' := by
  induction hsteps with
  | refl => exact h
  | tail _ hstep ih => exact invariant_step hstep ih

/-! ## Clean handovers -/

/-- Nothing was read twice, and what was read is committed, or lies behind the
position of a current reader. -/
structure CleanInvariant (group : ReaderGroup Partition) : Prop extends Invariant group where
  accounted : ∀ other ∈ group.readers, ∀ partition offset, (partition, offset) ∈ other.read →
    offset < group.committed partition ∨ ∃ reader ∈ group.readers,
      (reader.current ∧ reader.assigned partition) ∧ offset < reader.position partition
  once : (group.readers.flatMap Reader.read).Nodup

omit [DecidableEq Partition] in
theorem cleanInvariant_start : CleanInvariant (start : ReaderGroup Partition) where
  toInvariant := invariant_start
  accounted _ h := by cases h
  once := List.nodup_nil

omit [DecidableEq Partition] in
/-- A current reader has not come to what lies ahead of it, nor has any other. -/
theorem CleanInvariant.not_read (h : CleanInvariant ⟨committed, owner, before ++ reader :: after⟩)
    (hcurrent : reader.current) {partition : Partition} (hassigned : reader.assigned partition) :
    ∀ other ∈ before ++ reader :: after, (partition, reader.position partition) ∉ other.read := by
  intro other hother hread
  have htracks := h.tracked before.length reader (by simp) hcurrent partition hassigned
  rcases h.accounted other hother _ _ hread with hcommitted | ⟨mine, hmine, ⟨hcurrent', hassigned'⟩,
      hbehind⟩
  · exact hcommitted.not_ge htracks.ahead
  · obtain ⟨index, hindex⟩ := List.getElem?_of_mem hmine
    have htracks' := h.tracked index mine hindex hcurrent' partition hassigned'
    obtain rfl : before.length = index :=
      Option.some.inj (htracks.owned.symm.trans htracks'.owned)
    obtain rfl : reader = mine := by simpa using hindex
    exact lt_irrefl _ hbehind

/-- Step lemma: with clean handovers, every step keeps the invariant. -/
theorem cleanInvariant_step (hstep : Step True group group') (h : CleanInvariant group) :
    CleanInvariant group' := by
  have hinvariant := invariant_step hstep h.toInvariant
  cases hstep with
  | join committed owner readers =>
      refine ⟨hinvariant, fun other hother partition offset hread => ?_, by
        simpa [Reader.start] using h.once⟩
      rcases List.mem_append.mp hother with hother | hother
      · exact (h.accounted other hother partition offset hread).imp_right
          fun ⟨mine, hmine, hbehind⟩ => ⟨mine, List.mem_append_left _ hmine, hbehind⟩
      · obtain rfl := List.mem_singleton.mp hother
        cases hread
  | assign committed owner owner' readers hsettled =>
      refine ⟨hinvariant, fun other hother partition offset hread => .inl ?_, by
        simpa [List.flatMap_map, Reader.revoke] using h.once⟩
      obtain ⟨reader, hreader, rfl⟩ := List.mem_map.mp hother
      rcases h.accounted reader hreader partition offset hread with hcommitted | ⟨mine, hmine,
          ⟨hcurrent, hassigned⟩, hbehind⟩
      · exact hcommitted
      · exact hbehind.trans_le (hsettled trivial mine hmine hcurrent partition hassigned)
  | adopt committed owner before reader after hcurrent =>
      refine ⟨hinvariant, fun other hother partition offset hread => ?_, by
        simpa [Reader.adopt] using h.once⟩
      have hold : ∃ other ∈ before ++ reader :: after, (partition, offset) ∈ other.read := by
        rcases mem_replaced hother with rfl | hother
        · exact ⟨reader, List.mem_append_right _ List.mem_cons_self, hread⟩
        · exact ⟨other, hother, hread⟩
      obtain ⟨other, hother, hread⟩ := hold
      refine (h.accounted other hother partition offset hread).imp_right fun haccounted => ?_
      exact exists_mem_replaced (fun hmine => absurd hmine.1.1 (by simp [hcurrent])) haccounted
  | advance committed owner before reader after partition hassigned hcurrent =>
      have hfresh := h.not_read (hcurrent trivial) hassigned
      refine ⟨hinvariant, fun other hother target offset hread => ?_, ?_⟩
      · have hold : (target, offset) = (partition, reader.position partition) ∨
            ∃ other ∈ before ++ reader :: after, (target, offset) ∈ other.read := by
          rcases mem_replaced hother with rfl | hother
          · exact (List.mem_cons.mp hread).imp_right fun hread =>
              ⟨reader, List.mem_append_right _ List.mem_cons_self, hread⟩
          · exact .inr ⟨other, hother, hread⟩
        rcases hold with hnew | ⟨other, hother, hread⟩
        · obtain ⟨rfl, rfl⟩ := Prod.mk.inj hnew
          refine .inr ⟨_, List.mem_append_right _ List.mem_cons_self,
            ⟨hcurrent trivial, hassigned⟩, ?_⟩
          exact (Nat.lt_succ_self _).trans_eq (reader.position_advance_self _).symm
        · have hmine : (reader.current ∧ reader.assigned target) ∧ offset < reader.position target →
              ((reader.advance partition).current ∧ (reader.advance partition).assigned target) ∧
                offset < (reader.advance partition).position target := fun hmine =>
            ⟨hmine.1, hmine.2.trans_le (reader.position_le_advance partition target)⟩
          exact (h.accounted other hother target offset hread).imp_right
            (exists_mem_replaced hmine)
      · have hperm : ((before ++ reader.advance partition :: after).flatMap Reader.read).Perm
            ((partition, reader.position partition) ::
              (before ++ reader :: after).flatMap Reader.read) := by
          simp only [List.flatMap_append, List.flatMap_cons, Reader.advance, List.cons_append]
          exact List.perm_middle
        rw [hperm.nodup_iff, List.nodup_cons]
        refine ⟨fun hread => ?_, h.once⟩
        obtain ⟨other, hother, hread⟩ := List.mem_flatMap.mp hread
        exact hfresh other hother hread
  | commit committed committed' owner before reader after hcommits =>
      refine ⟨hinvariant, fun other hother partition offset hread => ?_, h.once⟩
      refine (h.accounted other hother partition offset hread).imp_left fun hcommitted => ?_
      cases hmine : reader.assigned partition with
      | false => exact hcommitted.trans_eq (hcommits.other partition hmine).symm
      | true => exact hcommitted.trans_le (hcommits.assigned partition hmine).1

/-- Run lemma: with clean handovers, no place is read twice in any run. -/
theorem cleanInvariant_of_steps (hsteps : Relation.ReflTransGen (Step True) group group')
    (h : CleanInvariant group) : CleanInvariant group' := by
  induction hsteps with
  | refl => exact h
  | tail _ hstep ih => exact cleanInvariant_step hstep ih

end ReaderGroup

end BlockchainDataCollection.Effect
