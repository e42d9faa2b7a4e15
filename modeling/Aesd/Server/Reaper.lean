import Aesd.Lib.Table
import Aesd.Server.Main

/-!
# The list of client threads

`main` keeps the argument blocks of its client threads in a list.  It puts a block at the front when
it has created the thread, and takes it out, in the middle of a traversal, when it has joined the
thread.  This file says that the list is right whatever the order of events, and what follows from
that.

The argument has two halves.  `Blocks` is about the blocks: that of a thread that has not been
joined is live and describes the thread, and no block is freed twice.  `ListAt` is about the list:
for each place where `main` can be, which blocks are in it, and of a traversal how far it has come.
`ListAt` depends on the links and on which threads have been joined, and on nothing else a client
thread could change.  Together they are `Process.Sound`, which every action keeps.
-/

set_option autoImplicit false

namespace Aesd

open SList (Seg)

/-! ## Which threads have not been joined -/

theorem mem_unjoined {slots : List (ℕ × Bool)} {p : ℕ} :
    p ∈ unjoined slots ↔ (p, false) ∈ slots := by
  simp [unjoined]

theorem unjoined_append (slots : List (ℕ × Bool)) (p : ℕ) :
    unjoined (slots ++ [(p, false)]) = p :: unjoined slots := by
  simp [unjoined]

theorem nodup_unjoined {slots : List (ℕ × Bool)} (h : (slots.map Prod.fst).Nodup) :
    (unjoined slots).Nodup :=
  List.nodup_reverse.mpr (h.sublist (List.filter_sublist.map Prod.fst))

/-- Joining a thread takes its block out, and leaves the others in their order. -/
theorem unjoined_set {slots : List (ℕ × Bool)} {i p : ℕ} (hi : slots[i]? = some (p, false))
    (h : (slots.map Prod.fst).Nodup) :
    unjoined (slots.set i (p, true)) = (unjoined slots).filter (· ≠ p) := by
  obtain ⟨hlt, hget⟩ := List.getElem?_eq_some_iff.mp hi
  have hsplit : slots = slots.take i ++ (p, false) :: slots.drop (i + 1) := by
    rw [← hget, List.getElem_cons_drop, List.take_append_drop]
  have hother : ∀ q ∈ slots.take i ++ slots.drop (i + 1), q.1 ≠ p := by
    rw [hsplit, List.map_append, List.map_cons, List.nodup_append, List.nodup_cons] at h
    obtain ⟨-, ⟨hdrop, -⟩, htake⟩ := h
    intro q hq he
    rcases List.mem_append.mp hq with hq | hq
    · exact htake q.1 (List.mem_map_of_mem hq) p List.mem_cons_self he
    · exact hdrop (List.mem_map.mpr ⟨q, hq, he⟩)
  have hkeep : ∀ qs : List (ℕ × Bool), (∀ q ∈ qs, q.1 ≠ p) →
      ((qs.filter fun q ↦ !q.2).map Prod.fst).filter (· ≠ p) =
        (qs.filter fun q ↦ !q.2).map Prod.fst := by
    intro qs hqs
    refine List.filter_eq_self.mpr ?_
    intro x hx
    obtain ⟨q, hq, rfl⟩ := List.mem_map.mp hx
    simpa using hqs q (List.mem_of_mem_filter hq)
  rw [List.set_eq_take_append_cons_drop, if_pos hlt]
  conv_rhs => rw [hsplit]
  simp only [unjoined, List.filter_append, List.filter_cons, List.map_append, List.filter_reverse,
    Bool.not_true, Bool.not_false, if_true, List.map_cons, Bool.false_eq_true, if_false]
  rw [hkeep _ fun q hq ↦ hother q (List.mem_append_left _ hq),
    hkeep _ fun q hq ↦ hother q (List.mem_append_right _ hq)]
  simp

/-! ## The links -/

/-- The link of each argument block. -/
def links (mem : Heap ThreadArgs) (p : ℕ) : Option ℕ := (mem.block p).map ThreadArgs.next

theorem links_of_block {mem : Heap ThreadArgs} {p : ℕ} {args : ThreadArgs}
    (h : mem.block p = some args) : links mem p = some args.next := by
  rw [links, h, Option.map_some]

theorem exists_of_links {mem : Heap ThreadArgs} {p r : ℕ} (h : links mem p = some r) :
    ∃ args, mem.block p = some args ∧ args.next = r :=
  Option.map_eq_some_iff.mp h

theorem links_alloc (mem : Heap ThreadArgs) (args : ThreadArgs) :
    links (mem.alloc args) = Function.update (links mem) mem.next (some args.next) := by
  funext q
  rw [links, Heap.block_alloc, Function.update_apply]
  split <;> rfl

theorem links_put {mem : Heap ThreadArgs} {p : ℕ} {args : ThreadArgs} (h : mem.block p = some args)
    (args' : ThreadArgs) :
    links (mem.put p args') = Function.update (links mem) p (some args'.next) := by
  funext q
  rw [links, Heap.block_put, Function.update_apply, h]
  split <;> rfl

/-- A change of another field. -/
theorem links_put_same {mem : Heap ThreadArgs} {p : ℕ} {args args' : ThreadArgs}
    (h : mem.block p = some args) (hsame : args'.next = args.next) :
    links (mem.put p args') = links mem := by
  rw [links_put h, hsame, ← links_of_block h, Function.update_eq_self]

theorem links_free (mem : Heap ThreadArgs) (p : ℕ) :
    links (mem.free p) = Function.update (links mem) p none := by
  funext q
  rw [links, Heap.block_free, Function.update_apply]
  split <;> rfl

/-! ## The blocks -/

/-- A thread has ended only if it has returned, and has been joined only if it has ended; `finished`
is set by the last thing it does. -/
structure Thread.Staged (t : Thread) : Prop where
  /-- It has ended. -/
  ended : t.ended = true → t.sock.pc = .done
  /-- It has been joined. -/
  joined : t.joined = true → t.ended = true
  /-- It has finished. -/
  finished : t.sock.finished = true ↔ t.sock.pc = .done

/-- What the argument block of a thread has in it. -/
structure Describes (i : ℕ) (t : Thread) (args : ThreadArgs) : Prop where
  /-- Its number. -/
  threadId : args.threadId = i
  /-- Its descriptor. -/
  sockFd : args.sockFd = t.fd
  /-- Has it finished? -/
  finished : args.finished = t.sock.finished

/-- The blocks of the threads are live as long as they have to be. -/
structure Blocks (mem : Heap ThreadArgs) (threads : List Thread) (joins : List ℕ) : Prop where
  /-- Nothing has been freed twice. -/
  accounted : mem.Accounted
  /-- Nothing has been freed that was not live. -/
  badFrees : mem.badFrees = []
  /-- No two threads share a block. -/
  nodup : (threads.map Thread.args).Nodup
  /-- Every thread has been given a block. -/
  given : ∀ t ∈ threads, t.args ≠ 0 ∧ t.args < mem.next
  /-- The block of a thread that has not been joined is live. -/
  live : ∀ i t, threads[i]? = some t → t.joined = false →
    ∃ args, mem.block t.args = some args ∧ Describes i t args
  /-- Each thread is at one stage of its life. -/
  staged : ∀ t ∈ threads, t.Staged
  /-- Which threads have been joined, once each. -/
  counted : ∀ i t, threads[i]? = some t → joins.count i = if t.joined then 1 else 0
  /-- Only threads have been joined. -/
  joins_lt : ∀ i ∈ joins, i < threads.length

namespace Blocks

variable {mem : Heap ThreadArgs} {threads : List Thread} {joins : List ℕ}

theorem nodup_slots (h : Blocks mem threads joins) :
    ((threads.map Thread.slot).map Prod.fst).Nodup := by
  rw [List.map_map]
  exact h.nodup

/-- Whose block it is. -/
theorem exists_of_mem_unjoined (h : Blocks mem threads joins) {p : ℕ}
    (hp : p ∈ unjoined (threads.map Thread.slot)) :
    ∃ i t args, threads[i]? = some t ∧ t.args = p ∧ t.joined = false ∧
      mem.block p = some args ∧ Describes i t args := by
  obtain ⟨t, ht, hslot⟩ := List.mem_map.mp (mem_unjoined.mp hp)
  obtain ⟨rfl, hjoined⟩ := Prod.mk.inj hslot
  obtain ⟨i, hi, heq⟩ := List.getElem_of_mem ht
  have hget : threads[i]? = some t := by rw [List.getElem?_eq_getElem hi, heq]
  obtain ⟨args, hblock, hd⟩ := h.live i t hget hjoined
  exact ⟨i, t, args, hget, rfl, hjoined, hblock, hd⟩

/-- Two threads with one block are one. -/
theorem eq_of_args (h : Blocks mem threads joins) {i j : ℕ} {t u : Thread}
    (hi : threads[i]? = some t) (hj : threads[j]? = some u) (he : t.args = u.args) : i = j := by
  have hlt : i < (threads.map Thread.args).length := by
    rw [List.length_map]
    exact (List.getElem?_eq_some_iff.mp hi).1
  refine (List.getElem?_inj hlt h.nodup).mp ?_
  rw [List.getElem?_map, List.getElem?_map, hi, hj, Option.map_some, Option.map_some, he]

/-- A change of blocks that keeps those of the threads that have not been joined. -/
theorem of_mem (h : Blocks mem threads joins) {mem' : Heap ThreadArgs} (hacc : mem'.Accounted)
    (hbad : mem'.badFrees = []) (hnext : mem.next ≤ mem'.next)
    (hlive : ∀ i t args, threads[i]? = some t → t.joined = false → mem.block t.args = some args →
      Describes i t args → ∃ args', mem'.block t.args = some args' ∧ Describes i t args') :
    Blocks mem' threads joins where
  accounted := hacc
  badFrees := hbad
  nodup := h.nodup
  given t ht := ⟨(h.given t ht).1, (h.given t ht).2.trans_le hnext⟩
  live i t hi hj := by
    obtain ⟨args, hblock, hd⟩ := h.live i t hi hj
    exact hlive i t args hi hj hblock hd
  staged := h.staged
  counted := h.counted
  joins_lt := h.joins_lt

/-- A new block. -/
theorem alloc (h : Blocks mem threads joins) (args : ThreadArgs) :
    Blocks (mem.alloc args) threads joins := by
  refine h.of_mem (h.accounted.alloc args) h.badFrees (Nat.le_succ _) ?_
  intro i t args' _ _ hblock hd
  refine ⟨args', ?_, hd⟩
  rw [Heap.block_alloc, if_neg (Nat.ne_of_lt (Heap.lt_next hblock)), hblock]

/-- A new link. -/
theorem relink (h : Blocks mem threads joins) {p : ℕ} {args : ThreadArgs}
    (hp : mem.block p = some args) (r : ℕ) :
    Blocks (mem.put p { args with next := r }) threads joins := by
  refine h.of_mem (h.accounted.put p _) h.badFrees le_rfl ?_
  intro i t args' _ _ hblock hd
  rw [Heap.block_put]
  split
  · rename_i he
    obtain rfl : args = args' := Option.some.inj ((he ▸ hp).symm.trans hblock)
    rw [hp]
    exact ⟨_, rfl, hd.threadId, hd.sockFd, hd.finished⟩
  · exact ⟨args', hblock, hd⟩

/-- A block is freed that no thread needs. -/
theorem free (h : Blocks mem threads joins) {p : ℕ} {args : ThreadArgs}
    (hp : mem.block p = some args) (hfree : p ∉ unjoined (threads.map Thread.slot)) :
    Blocks (mem.free p) threads joins := by
  refine h.of_mem (h.accounted.free hp) ?_ le_rfl ?_
  · rw [Heap.badFrees_free (.inr (by rw [hp]; rfl)), h.badFrees]
  · intro i t args' hi hj hblock hd
    refine ⟨args', ?_, hd⟩
    have hne : t.args ≠ p := by
      rintro rfl
      refine hfree (mem_unjoined.mpr (List.mem_map.mpr ⟨t, List.mem_of_getElem? hi, ?_⟩))
      rw [Thread.slot, hj]
    rw [Heap.block_free, if_neg hne, hblock]

/-- A new thread, whose block nobody has. -/
theorem create (h : Blocks mem threads joins) {p : ℕ} {args : ThreadArgs} (errno : ℤ)
    (hp : mem.block p = some args) (hfin : args.finished = false)
    (hown : ∀ t ∈ threads, t.args ≠ p) :
    Blocks (mem.put p { args with threadId := threads.length })
      (threads ++ [⟨.init errno, p, args.sockFd, false, false⟩]) joins where
  accounted := h.accounted.put p _
  badFrees := h.badFrees
  nodup := by
    rw [List.map_append, List.nodup_append]
    refine ⟨h.nodup, List.nodup_singleton _, ?_⟩
    intro q hq q' hq' he
    obtain rfl := List.mem_singleton.mp hq'
    obtain ⟨t, ht, rfl⟩ := List.mem_map.mp hq
    exact hown t ht he
  given t ht := by
    rcases List.mem_append.mp ht with ht | ht
    · exact h.given t ht
    · obtain rfl := List.mem_singleton.mp ht
      have hlt := Heap.lt_next hp
      exact ⟨Heap.ne_null hp, hlt⟩
  live i t hi hj := by
    rcases Table.of_concat hi with hi | ⟨rfl, rfl⟩
    · obtain ⟨args', hblock, hd⟩ := h.live i t hi hj
      refine ⟨args', ?_, hd⟩
      rw [Heap.block_put, if_neg (hown t (List.mem_of_getElem? hi)), hblock]
    · refine ⟨{ args with threadId := threads.length }, ?_, rfl, rfl, hfin⟩
      rw [Heap.block_put, if_pos rfl, hp, Option.map_some]
  staged t ht := by
    rcases List.mem_append.mp ht with ht | ht
    · exact h.staged t ht
    · obtain rfl := List.mem_singleton.mp ht
      exact ⟨by simp, by simp, by simp [SockThread.init]⟩
  counted i t hi := by
    rcases Table.of_concat hi with hi | ⟨rfl, rfl⟩
    · exact h.counted i t hi
    · rw [if_neg (by simp), List.count_eq_zero]
      intro hmem
      exact absurd (h.joins_lt _ hmem) (Nat.lt_irrefl _)
  joins_lt i hi := by
    rw [List.length_append]
    exact (h.joins_lt i hi).trans_le (Nat.le_add_right _ _)

/-- A thread makes a step. -/
theorem setThread (h : Blocks mem threads joins) {mem' : Heap ThreadArgs} {i : ℕ} {t t' : Thread}
    (hi : threads[i]? = some t) (hargs : t'.args = t.args) (hjoined : t'.joined = t.joined)
    (hstaged : t'.Staged)
    (hacc : mem'.Accounted) (hbad : mem'.badFrees = []) (hnext : mem'.next = mem.next)
    (hown : t.joined = false → ∃ args, mem'.block t.args = some args ∧ Describes i t' args)
    (hother : ∀ q, q ≠ t.args → mem'.block q = mem.block q) :
    Blocks mem' (threads.set i t') joins where
  accounted := hacc
  badFrees := hbad
  nodup := by
    rw [Table.map_set hi hargs]
    exact h.nodup
  given := by
    rw [hnext]
    refine Table.forall_set h.given ?_
    rw [hargs]
    exact h.given t (List.mem_of_getElem? hi)
  live j u hj hu := by
    rcases Table.of_set hj with ⟨rfl, rfl⟩ | ⟨hne, hj⟩
    · rw [hargs]
      exact hown (hjoined.symm.trans hu)
    · obtain ⟨args, hblock, hd⟩ := h.live j u hj hu
      exact ⟨args, (hother _ fun he ↦ hne (h.eq_of_args hj hi he)).trans hblock, hd⟩
  staged := Table.forall_set h.staged hstaged
  counted j u hj := by
    rcases Table.of_set hj with ⟨rfl, rfl⟩ | ⟨-, hj⟩
    · rw [hjoined]
      exact h.counted j t hi
    · exact h.counted j u hj
  joins_lt := by
    rw [List.length_set]
    exact h.joins_lt

/-- A thread that has ended is joined. -/
theorem join (h : Blocks mem threads joins) {i : ℕ} {t : Thread} (hi : threads[i]? = some t)
    (hjoined : t.joined = false) (hended : t.ended = true) :
    Blocks mem (threads.set i { t with joined := true }) (i :: joins) where
  accounted := h.accounted
  badFrees := h.badFrees
  nodup := by
    have hmap : (threads.set i { t with joined := true }).map Thread.args =
        threads.map Thread.args := Table.map_set hi rfl
    rw [hmap]
    exact h.nodup
  given := Table.forall_set h.given (h.given t (List.mem_of_getElem? hi))
  live j u hj hu := by
    rcases Table.of_set hj with ⟨rfl, rfl⟩ | ⟨-, hj⟩
    · exact absurd hu (by simp)
    · exact h.live j u hj hu
  staged := by
    have hst := h.staged t (List.mem_of_getElem? hi)
    exact Table.forall_set h.staged ⟨hst.ended, fun _ ↦ hended, hst.finished⟩
  counted j u hj := by
    rcases Table.of_set hj with ⟨rfl, rfl⟩ | ⟨hne, hj⟩
    · rw [List.count_cons_self, h.counted j t hi, hjoined]
      rfl
    · rw [List.count_cons_of_ne (Ne.symm hne), h.counted j u hj]
  joins_lt j hj := by
    rw [List.length_set]
    rcases List.mem_cons.mp hj with rfl | hj
    · exact (List.getElem?_eq_some_iff.mp hi).1
    · exact h.joins_lt j hj

end Blocks

/-! ## The list -/

/-- The list in memory has the blocks `ps`, the blocks of the threads that have not been joined are
`qs`, and the blocks of all other threads are gone, that at `q` apart. -/
structure Linked (link : ℕ → Option ℕ) (slots : List (ℕ × Bool)) (head : ℕ) (ps qs : List ℕ)
    (q : ℕ) : Prop where
  /-- The list in memory. -/
  seg : Seg 0 link head ps 0
  /-- The threads that have not been joined. -/
  unjoined : unjoined slots = qs
  /-- The other threads. -/
  gone : ∀ slot ∈ slots, slot.2 = true → slot.1 ≠ q → link slot.1 = none

namespace Linked

variable {link : ℕ → Option ℕ} {slots : List (ℕ × Bool)} {head q : ℕ} {ps qs : List ℕ}

theorem empty : Linked link [] 0 (Aesd.unjoined []) (Aesd.unjoined []) 0 := ⟨rfl, rfl, by simp⟩

theorem self (h : Linked link slots head ps ps q) :
    Linked link slots head (Aesd.unjoined slots) (Aesd.unjoined slots) q := by
  rw [h.unjoined]
  exact h

/-- A link that is not in the list changes, and a block with a link is not gone. -/
theorem update (h : Linked link slots head ps qs q) {p : ℕ} {r : Option ℕ} (hp : p ∉ ps)
    (hslots : ∀ slot ∈ slots, slot.2 = true → slot.1 ≠ p) :
    Linked (Function.update link p r) slots head ps qs q where
  seg := h.seg.update_of_notMem hp r
  unjoined := h.unjoined
  gone slot hslot hj hne := by
    rw [Function.update_of_ne (hslots slot hslot hj)]
    exact h.gone slot hslot hj hne

/-- The block of a thread that has been joined is not one with a link. -/
theorem ne_of_link (h : Linked link slots head ps qs 0) (h0 : ∀ slot ∈ slots, slot.1 ≠ 0) {p r : ℕ}
    (hp : link p = some r) : ∀ slot ∈ slots, slot.2 = true → slot.1 ≠ p := by
  rintro slot hslot hj rfl
  exact absurd ((h.gone slot hslot hj (h0 slot hslot)).symm.trans hp) (by simp)

/-- A block in the list is live. -/
theorem block {mem : Heap ThreadArgs} (h : Linked (links mem) slots head ps qs q) {p : ℕ}
    (hp : p ∈ ps) : ∃ args, mem.block p = some args := by
  obtain ⟨r, hr⟩ := h.seg.exists_link hp
  obtain ⟨args, hargs, -⟩ := exists_of_links hr
  exact ⟨args, hargs⟩

end Linked

/-- What the sweep leaves of the blocks it has dealt with. -/
def Sweep.kept (w : Sweep) (seen : List ℕ) : List ℕ := seen.filter (· ∉ w.saw)

/-- Of the blocks the sweep began with, it has dealt with `seen`, is at `cur`, and has `rest` ahead.
-/
structure Sweep.Split (w : Sweep) (seen cur rest : List ℕ) : Prop where
  /-- They are all there, in order. -/
  before : w.before = seen ++ (cur ++ rest)
  /-- No block twice. -/
  nodup : w.before.Nodup
  /-- It has not looked ahead. -/
  saw : ∀ p ∈ w.saw, p ∈ seen ++ cur

namespace Sweep

variable {w w' : Sweep} {seen rest : List ℕ} {p : ℕ}

theorem mem_kept : p ∈ w.kept seen ↔ p ∈ seen ∧ p ∉ w.saw := by simp [kept]

theorem kept_append (as bs : List ℕ) : w.kept (as ++ bs) = w.kept as ++ w.kept bs :=
  List.filter_append ..

theorem kept_see (hp : p ∉ seen) : { w with saw := p :: w.saw }.kept seen = w.kept seen := by
  refine List.filter_congr ?_
  intro q hq
  have hne : q ≠ p := fun he ↦ hp (he ▸ hq)
  simp [hne]

theorem kept_concat_of_saw (hp : p ∈ w.saw) : w.kept (seen ++ [p]) = w.kept seen := by
  rw [kept_append, kept, kept, List.filter_singleton]
  simp [hp]

theorem kept_concat_of_notMem (hp : p ∉ w.saw) : w.kept (seen ++ [p]) = w.kept seen ++ [p] := by
  rw [kept_append, kept, kept, List.filter_singleton]
  simp [hp]

theorem Split.notMem_seen {cur : List ℕ} (h : w.Split seen cur rest) (hp : p ∈ cur ++ rest) :
    p ∉ seen := by
  intro hmem
  have hnodup := h.nodup
  rw [h.before, List.nodup_append] at hnodup
  exact hnodup.2.2 p hmem p hp rfl

theorem Split.notMem_rest (h : w.Split seen [p] rest) : p ∉ rest := by
  have hnodup := h.nodup
  rw [h.before, List.nodup_append] at hnodup
  exact (List.nodup_cons.mp hnodup.2.1).1

/-- What is ahead has not been looked at. -/
theorem Split.notMem_saw (h : w.Split seen [] (p :: rest)) : p ∉ w.saw := by
  intro hmem
  have hseen := h.saw p hmem
  rw [List.append_nil] at hseen
  exact h.notMem_seen (by simp) hseen

/-- The next block has `finished` set. -/
theorem Split.see (h : w.Split seen [] (p :: rest)) :
    { w with saw := p :: w.saw }.Split seen [p] rest where
  before := h.before
  nodup := h.nodup
  saw q hq := by
    rcases List.mem_cons.mp hq with rfl | hq
    · exact List.mem_append_right _ List.mem_cons_self
    · exact List.mem_append_left _ (by simpa using h.saw q hq)

/-- The list is what the sweep began with, without what it has taken out. -/
theorem Split.filter_before (h : w.Split seen [] rest) :
    w.before.filter (· ∉ w.saw) = w.kept seen ++ rest := by
  have hrest : rest.filter (· ∉ w.saw) = rest := by
    refine List.filter_eq_self.mpr ?_
    intro q hq
    have hnot : q ∉ w.saw := by
      intro hmem
      have hseen := h.saw q hmem
      rw [List.append_nil] at hseen
      exact h.notMem_seen hq hseen
    simpa using hnot
  rw [h.before, List.nil_append, List.filter_append, hrest, kept]

/-- On to the next block. -/
theorem Split.advance {cur : List ℕ} (h : w.Split seen cur rest) (hcur : cur = [p])
    (hbefore : w'.before = w.before) (hsaw : w'.saw = w.saw) : w'.Split (seen ++ [p]) [] rest where
  before := by
    rw [hbefore, h.before, hcur]
    simp
  nodup := hbefore ▸ h.nodup
  saw q hq := by
    rw [List.append_nil, ← hcur]
    exact h.saw q (hsaw ▸ hq)

/-- The next block is the one to look at. -/
theorem Split.focus (h : w.Split seen [] (p :: rest)) : w.Split seen [p] rest :=
  ⟨h.before, h.nodup, fun q hq ↦ List.mem_append_left _ (by simpa using h.saw q hq)⟩

end Sweep

/-- The list while `main` is in `remove_joinable_threads`. -/
def SweepAt (link : ℕ → Option ℕ) (slots : List (ℕ × Bool)) (head : ℕ) (w : Sweep) : SweepPc → Prop
  | .test => ∃ seen rest, w.Split seen [] rest ∧
      Linked link slots head (w.kept seen ++ rest) (w.kept seen ++ rest) 0 ∧
      Seg 0 link w.next rest 0
  | .finished => ∃ seen rest, w.Split seen [] (w.next :: rest) ∧
      Linked link slots head (w.kept seen ++ w.next :: rest) (w.kept seen ++ w.next :: rest) 0 ∧
      Seg 0 link w.nextTemp rest 0
  | .join => ∃ seen rest, w.Split seen [w.next] rest ∧ w.next ∈ w.saw ∧
      Linked link slots head (w.kept seen ++ w.next :: rest) (w.kept seen ++ w.next :: rest) 0 ∧
      Seg 0 link w.nextTemp rest 0
  | .remove => ∃ seen rest, w.Split seen [w.next] rest ∧ w.next ∈ w.saw ∧
      Linked link slots head (w.kept seen ++ w.next :: rest) (w.kept seen ++ rest) w.next ∧
      Seg 0 link w.nextTemp rest 0
  | .scan => ∃ seen rest, w.Split seen [w.next] rest ∧ w.next ∈ w.saw ∧
      Linked link slots head (w.kept seen ++ w.next :: rest) (w.kept seen ++ rest) w.next ∧
      Seg 0 link w.nextTemp rest 0 ∧ w.curelm ∈ w.kept seen
  | .free => ∃ seen rest, w.Split seen [w.next] rest ∧ w.next ∈ w.saw ∧
      Linked link slots head (w.kept seen ++ rest) (w.kept seen ++ rest) w.next ∧
      Seg 0 link w.nextTemp rest 0 ∧ link w.next ≠ none

/-- The list, depending on where `main` is. -/
def ListAt (link : ℕ → Option ℕ) (slots : List (ℕ × Bool)) (head threadArgs : ℕ) (w : Sweep) :
    MainPc → Prop
  | .setup _ | .exited => slots = [] ∧ head = 0
  | .loop .disown | .loop .insert => ∃ ps, Linked link slots head ps (threadArgs :: ps) 0
  | .loop _ => Linked link slots head (unjoined slots) (unjoined slots) 0
  | .sweep _ pc => SweepAt link slots head w pc
  | .cleanup pc => Linked link slots head (unjoined slots) (unjoined slots) 0 ∧
      (pc ∈ [.removeFile, .mutexDestroy, .closeServer, .done] → unjoined slots = [])
  | .undefined => False

/-- Before the loop there is nothing. -/
theorem listAt_of_empty {link : ℕ → Option ℕ} {slots : List (ℕ × Bool)} {head threadArgs : ℕ}
    {w : Sweep} (hslots : slots = []) (hhead : head = 0) {pc : MainPc}
    (hpc : Process.FromSetup pc) :
    ListAt link slots head threadArgs w pc := by
  subst hslots hhead
  cases hpc with
  | setup pc => exact ⟨rfl, rfl⟩
  | exited => exact ⟨rfl, rfl⟩
  | loop => exact .empty
  | cleanup _ => exact ⟨.empty, fun _ ↦ rfl⟩

/-- The block `init_thread` has set up is nobody else's until it is handed over. -/
def OwnsArgs (s : Process) : Prop :=
  s.pc = .loop .pthreadCreate ∨ s.pc = .loop .freeArgs →
    s.mem.block s.threadArgs = some (initThread s.clientFd) ∧ ∀ t ∈ s.threads, t.args ≠ s.threadArgs

/-- Blocks and list are as they should be. -/
structure Process.Sound (s : Process) : Prop where
  /-- The blocks. -/
  blocks : Blocks s.mem s.threads s.joins
  /-- The list. -/
  list : ListAt (links s.mem) s.slots s.listHead s.threadArgs s.sweep s.pc
  /-- The block in between. -/
  owns : OwnsArgs s

theorem ownsArgs_of_ne {s : Process} (h₁ : s.pc ≠ .loop .pthreadCreate)
    (h₂ : s.pc ≠ .loop .freeArgs) : OwnsArgs s :=
  fun h ↦ (h.elim h₁ h₂).elim

namespace Process

variable {build : Build} {s s' : Process} {i : ℕ}

theorem sound_init (argv : List String) (garbage : ℤ) : (init argv garbage).Sound where
  blocks :=
    { accounted := Heap.accounted_empty
      badFrees := rfl
      nodup := List.nodup_nil
      given := by simp [init]
      live := by simp [init]
      staged := by simp [init]
      counted := by simp [init]
      joins_lt := by simp [init] }
  list := ⟨rfl, rfl⟩
  owns := ownsArgs_of_ne (by simp [init]) (by simp [init])

/-! ## What the client threads do to it -/

/-- A thread that makes a step has not been joined, and its block is live. -/
theorem Sound.block_of_step (h : s.Sound) {t : Thread} (hi : s.threads[i]? = some t)
    {o : Outcome} {sock : SockThread} (hstep : t.sock.step build o = some sock) :
    t.ended = false ∧ t.joined = false ∧
      ∃ args, s.mem.block t.args = some args ∧ Describes i t args := by
  have hst := h.blocks.staged t (List.mem_of_getElem? hi)
  have hpc : t.sock.pc ≠ .done := by
    rcases SockThread.step_ending hstep with ⟨hpc, -⟩ | ⟨hpc, -⟩ | ⟨-, -, hpc, -⟩
    · simp [hpc]
    · simp [hpc]
    · exact hpc
  have hended : t.ended = false := Bool.eq_false_iff.mpr fun he ↦ hpc (hst.ended he)
  have hjoined : t.joined = false := by
    rw [Bool.eq_false_iff]
    intro hj
    exact absurd (hst.joined hj) (by simp [hended])
  exact ⟨hended, hjoined, h.blocks.live i t hi hjoined⟩

/-- The stage a thread is at after a step. -/
theorem staged_step {t : Thread} (hst : t.Staged) (hended : t.ended = false) {o : Outcome}
    {sock : SockThread} (hstep : t.sock.step build o = some sock) :
    Thread.Staged { t with sock := sock } where
  ended he := absurd he (by simp [hended])
  joined := hst.joined
  finished := by
    have hfin := hst.finished
    rcases SockThread.step_ending hstep with
      ⟨hpc, hpc', hf⟩ | ⟨-, hpc', hf⟩ | ⟨-, -, hpc, -, hpc', hf⟩
    · simp [hpc', hf, hfin, hpc]
    · simp [hpc', hf]
    · simp [hpc', hf, hfin, hpc]

/-- Nothing that the list is about has changed. -/
theorem Sound.of_threads (h : s.Sound) (mem : Heap ThreadArgs) {threads : List Thread}
    (hblocks : Blocks mem threads s.joins) (hlinks : links mem = links s.mem)
    (hslots : threads.map Thread.slot = s.slots)
    (howns : OwnsArgs { s with mem := mem, threads := threads }) :
    { s with mem := mem, threads := threads }.Sound where
  blocks := hblocks
  list := by
    change ListAt (links mem) (threads.map Thread.slot) _ _ _ _
    rw [hlinks, hslots]
    exact h.list
  owns := howns

/-- A client thread only changes its own block, and not the link in it. -/
theorem Sound.client (h : s.Sound) {o : Outcome} (hs : s.clientStep build i o = some s') :
    s'.Sound := by
  obtain ⟨t, sock, hi, hstep, hcases⟩ := clientStep_cases hs
  obtain ⟨hended, hjoined, args, hblock, hd⟩ := h.block_of_step hi hstep
  have hstaged := staged_step (h.blocks.staged t (List.mem_of_getElem? hi)) hended hstep
  have hslots : (s.threads.set i { t with sock := sock }).map Thread.slot = s.slots :=
    Table.map_set hi rfl
  have hothers : (∀ u ∈ s.threads, u.args ≠ s.threadArgs) →
      ∀ u ∈ s.threads.set i { t with sock := sock }, u.args ≠ s.threadArgs := by
    intro hall
    exact Table.forall_set hall (hall t (List.mem_of_getElem? hi))
  have hending := SockThread.step_ending hstep
  -- the block is as it was, or has `finished` set
  have hquiet : t.sock.pc ≠ .finish →
      { s with threads := s.threads.set i { t with sock := sock } }.Sound := by
    intro hpc
    have hf : sock.finished = t.sock.finished := by
      rcases hending with ⟨-, -, hf⟩ | ⟨hpc', -⟩ | ⟨-, -, -, -, -, hf⟩
      · exact hf
      · exact absurd hpc' hpc
      · exact hf
    refine h.of_threads s.mem ?_ rfl hslots ?_
    · exact h.blocks.setThread hi rfl rfl hstaged h.blocks.accounted h.blocks.badFrees rfl
        (fun _ ↦ ⟨args, hblock, hd.threadId, hd.sockFd, hd.finished.trans hf.symm⟩) fun _ _ ↦ rfl
    · intro hpc
      exact ⟨(h.owns hpc).1, hothers (h.owns hpc).2⟩
  rcases hcases with ⟨hdead, -⟩ | ⟨args', hblock', ⟨hpc, rfl⟩ | ⟨hpc, rfl⟩ | ⟨-, hpc, rfl⟩⟩
  · exact absurd (hblock.symm.trans hdead) (by simp)
  · have hsound := hquiet (by simp [hpc])
    exact ⟨hsound.blocks, hsound.list, hsound.owns⟩
  · obtain rfl : args = args' := Option.some.inj (hblock.symm.trans hblock')
    have hf : sock.finished = true := by
      rcases hending with ⟨hpc', -⟩ | ⟨-, -, hf⟩ | ⟨-, hpc', -⟩
      · exact absurd (hpc.symm.trans hpc') (by simp)
      · exact hf
      · exact absurd hpc hpc'
    refine h.of_threads _ ?_ (links_put_same hblock rfl) hslots ?_
    · refine h.blocks.setThread hi rfl rfl hstaged (h.blocks.accounted.put _ _) h.blocks.badFrees
        rfl ?_ ?_
      · intro _
        refine ⟨{ args with finished := true }, ?_, hd.threadId, hd.sockFd, hf.symm⟩
        rw [Heap.block_put, if_pos rfl, hblock, Option.map_some]
      · intro q hq
        rw [Heap.block_put, if_neg hq]
    · intro hpc
      obtain ⟨hown, hall⟩ := h.owns hpc
      refine ⟨?_, hothers hall⟩
      change (s.mem.put _ _).block s.threadArgs = _
      rw [Heap.block_put, if_neg (hall t (List.mem_of_getElem? hi)).symm]
      exact hown
  · exact hquiet hpc

theorem Sound.clientEnd (h : s.Sound) (hs : s.clientEnd i = some s') : s'.Sound := by
  obtain ⟨t, hi, hpc, rfl⟩ := clientEnd_eq_some.mp hs
  have hst := h.blocks.staged t (List.mem_of_getElem? hi)
  refine h.of_threads s.mem ?_ rfl (Table.map_set hi rfl) ?_
  · refine h.blocks.setThread hi rfl rfl ⟨fun _ ↦ hpc, fun _ ↦ rfl, hst.finished⟩
      h.blocks.accounted h.blocks.badFrees rfl ?_ fun _ _ ↦ rfl
    intro hjoined
    obtain ⟨args, hblock, hd⟩ := h.blocks.live i t hi hjoined
    exact ⟨args, hblock, hd.threadId, hd.sockFd, hd.finished⟩
  · intro hpc
    have hall := (h.owns hpc).2
    exact ⟨(h.owns hpc).1, Table.forall_set hall (hall t (List.mem_of_getElem? hi))⟩

/-! ## What `main` does to it -/

/-- The list at the place where `main` is. -/
theorem Sound.listAt (h : s.Sound) {pc : MainPc} (hpc : s.pc = pc) :
    ListAt (links s.mem) s.slots s.listHead s.threadArgs s.sweep pc := hpc ▸ h.list

theorem Sound.slot_ne_null (h : s.Sound) : ∀ slot ∈ s.slots, slot.1 ≠ 0 := by
  intro slot hslot
  obtain ⟨t, ht, rfl⟩ := List.mem_map.mp hslot
  exact (h.blocks.given t ht).1

theorem Sound.setup (h : s.Sound) {pc : SetupPc} (hpc : s.pc = .setup pc) {o : MainOutcome}
    (hs : s.setupStep build pc o = some s') : s'.Sound := by
  obtain ⟨pc', _, _, _, _, _, _, _, hfrom, rfl, hhead, -⟩ := setupStep_cases hs
  obtain ⟨hslots, hzero⟩ := h.listAt hpc
  refine ⟨h.blocks, listAt_of_empty hslots ?_ hfrom, ?_⟩
  · rcases hhead with rfl | rfl
    · exact hzero
    · rfl
  · exact ownsArgs_of_ne (by cases hfrom <;> simp) (by cases hfrom <;> simp)

/-- A sweep begins. -/
theorem sweepAt_begin {link : ℕ → Option ℕ} {slots : List (ℕ × Bool)} {head : ℕ} (w : Sweep)
    (h : Linked link slots head (unjoined slots) (unjoined slots) 0)
    (hnodup : (unjoined slots).Nodup) :
    SweepAt link slots head { w with next := head, before := unjoined slots, saw := [] } .test :=
  ⟨[], unjoined slots, ⟨rfl, hnodup, by simp⟩, h, h.seg⟩

/-- The accept loop makes a block, hands it to a thread and puts it at the front of the list. -/
theorem Sound.loop (h : s.Sound) {pc : LoopPc} (hpc : s.pc = .loop pc) {o : MainOutcome}
    (hs : s.loopStep pc o = some s') : s'.Sound := by
  have hlist := h.listAt hpc
  cases pc <;> cases o <;> simp only [loopStep, reduceCtorEq, Option.some.injEq] at hs
  case test.ok | acceptFailed.ok =>
    subst hs
    split
    · exact ⟨h.blocks, hlist, ownsArgs_of_ne (by simp [goto]) (by simp [goto])⟩
    · exact ⟨h.blocks, ⟨hlist, by simp⟩, ownsArgs_of_ne (by simp [leaveLoop]) (by simp [leaveLoop])⟩
  case accept.fd n =>
    obtain ⟨-, rfl⟩ := Option.ite_some_none_eq_some.mp hs
    exact ⟨h.blocks, hlist, ownsArgs_of_ne (by simp) (by simp)⟩
  case accept.fail =>
    subst hs
    exact ⟨h.blocks, hlist, ownsArgs_of_ne (by simp) (by simp)⟩
  case initThread.ok =>
    subst hs
    have hfresh : ∀ t ∈ s.threads, t.args ≠ s.mem.next :=
      fun t ht ↦ Nat.ne_of_lt (h.blocks.given t ht).2
    have hslots : ∀ slot ∈ s.slots, slot.1 ≠ s.mem.next := by
      intro slot hslot
      obtain ⟨t, ht, rfl⟩ := List.mem_map.mp hslot
      exact hfresh t ht
    refine ⟨h.blocks.alloc _, ?_, ?_⟩
    · change ListAt (links (s.mem.alloc _)) s.slots s.listHead s.mem.next s.sweep _
      rw [links_alloc]
      refine hlist.update ?_ fun slot hslot _ ↦ hslots slot hslot
      exact fun hmem ↦ hslots _ (mem_unjoined.mp hmem) rfl
    · refine fun _ ↦ ⟨?_, hfresh⟩
      change (s.mem.alloc _).block s.mem.next = _
      rw [Heap.block_alloc, if_pos rfl]
      rfl
  case initThread.fail =>
    subst hs
    exact ⟨h.blocks, ⟨hlist, by simp⟩, ownsArgs_of_ne (by simp [goto]) (by simp [goto])⟩
  case pthreadCreate.thread errno =>
    obtain ⟨hown, hall⟩ := h.owns (.inl hpc)
    rw [deref_of_block hown, Option.some_inj] at hs
    subst hs
    refine ⟨h.blocks.create errno hown rfl hall, ?_, ownsArgs_of_ne (by simp) (by simp)⟩
    have hlinks := links_put_same hown
      (show ({ initThread s.clientFd with threadId := s.threads.length } : ThreadArgs).next = _
        from rfl)
    change ListAt (links (s.mem.put _ _)) (List.map Thread.slot (_ ++ _)) _ _ _ _
    rw [hlinks, List.map_append]
    refine ⟨unjoined s.slots, hlist.seg, unjoined_append .., ?_⟩
    intro slot hslot hj hne
    rcases List.mem_append.mp hslot with hslot | hslot
    · exact hlist.gone slot hslot hj hne
    · obtain rfl := List.mem_singleton.mp hslot
      exact absurd hj (by simp [Thread.slot])
  case pthreadCreate.fail =>
    subst hs
    exact ⟨h.blocks, hlist, fun _ ↦ h.owns (.inl hpc)⟩
  case freeArgs.ok =>
    subst hs
    obtain ⟨hown, hall⟩ := h.owns (.inr hpc)
    have hslots : ∀ slot ∈ s.slots, slot.1 ≠ s.threadArgs := by
      intro slot hslot
      obtain ⟨t, ht, rfl⟩ := List.mem_map.mp hslot
      exact hall t ht
    have hnot : s.threadArgs ∉ unjoined s.slots :=
      fun hmem ↦ hslots _ (mem_unjoined.mp hmem) rfl
    refine ⟨h.blocks.free hown hnot, ⟨?_, by simp⟩, ownsArgs_of_ne (by simp) (by simp)⟩
    change Linked (links (s.mem.free _)) s.slots _ _ _ _
    rw [links_free]
    exact hlist.update hnot fun slot hslot _ ↦ hslots slot hslot
  case disown.ok =>
    subst hs
    exact ⟨h.blocks, hlist, ownsArgs_of_ne (by simp) (by simp)⟩
  case insert.ok =>
    obtain ⟨ps, hps⟩ := hlist
    have hmem : s.threadArgs ∈ unjoined s.slots := by
      rw [hps.unjoined]
      exact List.mem_cons_self
    obtain ⟨_, _, args, -, -, -, hblock, -⟩ := h.blocks.exists_of_mem_unjoined hmem
    rw [deref_of_block hblock, Option.some_inj] at hs
    subst hs
    have hnodup : (unjoined s.slots).Nodup := nodup_unjoined h.blocks.nodup_slots
    have hnot : s.threadArgs ∉ ps := by
      rw [hps.unjoined] at hnodup
      exact (List.nodup_cons.mp hnodup).1
    refine ⟨h.blocks.relink hblock _, sweepAt_begin s.sweep ?_ hnodup,
      ownsArgs_of_ne (by simp [beginSweep]) (by simp [beginSweep])⟩
    change Linked (links (s.mem.put _ _)) s.slots s.threadArgs (unjoined s.slots) _ 0
    rw [links_put hblock]
    refine Linked.self ⟨?_, hps.unjoined, ?_⟩
    · exact hps.seg.insertHead (Heap.ne_null hblock) hnot
    · intro slot hslot hj hne
      rw [Function.update_of_ne
        (hps.ne_of_link h.slot_ne_null (links_of_block hblock) slot hslot hj)]
      exact hps.gone slot hslot hj hne

/-- What `Sound` is about, `main` itself apart. -/
def reaping (s : Process) : Heap ThreadArgs × List Thread × List ℕ × ℕ :=
  (s.mem, s.threads, s.joins, s.listHead)

/-- `remove_all_remaining_threads` goes on until the list is empty. -/
theorem Sound.cleanup (h : s.Sound) {pc : CleanupPc} (hpc : s.pc = .cleanup pc) {o : MainOutcome}
    (hs : s.cleanupStep build pc o = some s') : s'.Sound := by
  obtain ⟨hlist, hempty⟩ := h.listAt hpc
  have hgoto : ∀ {pc'}, s'.reaping = s.reaping → s'.pc = .cleanup pc' →
      (pc' ∈ [.removeFile, .mutexDestroy, .closeServer, .done] → unjoined s.slots = []) →
      s'.Sound := by
    intro pc' hsame hpc' hafter
    simp only [reaping, Prod.mk.injEq] at hsame
    obtain ⟨hmem, hthreads, hjoins, hhead⟩ := hsame
    have hslots : s'.slots = s.slots := by rw [slots, hthreads, slots]
    refine ⟨?_, ?_, ownsArgs_of_ne (by simp [hpc']) (by simp [hpc'])⟩
    · rw [hmem, hthreads, hjoins]
      exact h.blocks
    · rw [hmem, hslots, hhead, hpc']
      exact ⟨hlist, hafter⟩
  cases pc <;> cases o <;> simp only [cleanupStep, reduceCtorEq, Option.some.injEq] at hs
  case test.ok =>
    subst hs
    refine hgoto rfl rfl ?_
    intro hmem
    cases build <;> split at hmem <;> simp [afterClient] at hmem
  case closeClient.ok | closeClient.fail =>
    subst hs
    refine hgoto rfl rfl ?_
    intro hmem
    cases build <;> simp [afterClient] at hmem
  case timerDelete.ok | timerDelete.fail =>
    subst hs
    exact hgoto rfl rfl (by simp)
  case drain.ok =>
    split at hs <;> subst hs
    · rename_i hzero
      rw [hzero] at hlist
      exact hgoto rfl rfl fun _ ↦ hlist.seg.eq_nil
    · exact ⟨h.blocks, sweepAt_begin s.sweep hlist (nodup_unjoined h.blocks.nodup_slots),
        ownsArgs_of_ne (by simp [beginSweep]) (by simp [beginSweep])⟩
  case removeFile.ok | removeFile.fail | mutexDestroy.ok | mutexDestroy.fail | closeServer.ok |
      closeServer.fail =>
    subst hs
    exact hgoto rfl rfl fun _ ↦ hempty (by simp)

/-- The list at the place where the sweep is. -/
theorem Sound.sweepAt (h : s.Sound) {caller : Caller} {pc : SweepPc}
    (hpc : s.pc = .sweep caller pc) :
    SweepAt (links s.mem) s.slots s.listHead s.sweep pc := h.listAt hpc

/-- The sweep ends, or goes on to an element. -/
theorem Sound.sweep_test (h : s.Sound) {caller : Caller} (hpc : s.pc = .sweep caller .test)
    (hs : s.sweepStep caller .test .ok = some s') : s'.Sound := by
  obtain ⟨seen, rest, hsplit, hlist, hrest⟩ := h.sweepAt hpc
  rw [sweepStep] at hs
  split at hs
  · obtain rfl := Option.some.inj hs
    refine ⟨h.blocks, ?_, ownsArgs_of_ne (by cases caller <;> simp [goto, returnPc])
      (by cases caller <;> simp [goto, returnPc])⟩
    cases caller with
    | loop => exact hlist.self
    | drain => exact ⟨hlist.self, by simp⟩
  · rename_i hne
    obtain ⟨ys, r, rfl, hr, hys⟩ := hrest.exists_cons hne
    obtain ⟨args, hblock, rfl⟩ := exists_of_links hr
    rw [deref_of_block hblock, Option.some_inj] at hs
    subst hs
    exact ⟨h.blocks, ⟨seen, ys, ⟨hsplit.before, hsplit.nodup, hsplit.saw⟩, hlist, hys⟩,
      ownsArgs_of_ne (by simp) (by simp)⟩

/-- `finished` is looked at. -/
theorem Sound.sweep_finished (h : s.Sound) {caller : Caller} (hpc : s.pc = .sweep caller .finished)
    (hs : s.sweepStep caller .finished .ok = some s') : s'.Sound := by
  obtain ⟨seen, rest, hsplit, hlist, hrest⟩ := h.sweepAt hpc
  obtain ⟨args, hblock⟩ := hlist.block (List.mem_append_right _ List.mem_cons_self)
  rw [sweepStep, deref_of_block hblock, Option.some_inj] at hs
  subst hs
  split
  · refine ⟨h.blocks, ⟨seen, rest, hsplit.see, List.mem_cons_self, ?_, hrest⟩,
      ownsArgs_of_ne (by simp) (by simp)⟩
    rw [Sweep.kept_see (hsplit.notMem_seen (by simp))]
    exact hlist
  · refine ⟨h.blocks, ⟨seen ++ [s.sweep.next], rest, hsplit.focus.advance rfl rfl rfl, ?_, hrest⟩,
      ownsArgs_of_ne (by simp) (by simp)⟩
    have hkept : s.sweep.kept (seen ++ [s.sweep.next]) = s.sweep.kept seen ++ [s.sweep.next] :=
      Sweep.kept_concat_of_notMem hsplit.notMem_saw
    change Linked _ _ _ (s.sweep.kept _ ++ _) (s.sweep.kept _ ++ _) _
    rw [hkept, List.append_assoc, List.singleton_append]
    exact hlist

/-- The thread is joined: it is in the list although it has been joined. -/
theorem Sound.sweep_join (h : s.Sound) {caller : Caller} (hpc : s.pc = .sweep caller .join)
    (hs : s.sweepStep caller .join .ok = some s') : s'.Sound := by
  obtain ⟨seen, rest, hsplit, hsaw, hlist, hrest⟩ := h.sweepAt hpc
  have hmem : s.sweep.next ∈ unjoined s.slots := by
    rw [hlist.unjoined]
    exact List.mem_append_right _ List.mem_cons_self
  obtain ⟨i, t, args, hi, hargs, hjoined, hblock, hd⟩ := h.blocks.exists_of_mem_unjoined hmem
  rw [sweepStep, deref_of_block hblock, hd.threadId, join, hi] at hs
  dsimp only at hs
  rw [hjoined, if_neg (by simp)] at hs
  obtain ⟨hended, rfl⟩ := Option.ite_some_none_eq_some.mp hs
  have hslot : s.slots[i]? = some (s.sweep.next, false) := by
    rw [slots, List.getElem?_map, hi, Option.map_some, Thread.slot, hargs, hjoined]
  refine ⟨h.blocks.join hi hjoined hended, ?_, ownsArgs_of_ne (by simp) (by simp)⟩
  change SweepAt (links s.mem) ((s.threads.set i _).map Thread.slot) s.listHead s.sweep .remove
  rw [List.map_set]
  change SweepAt (links s.mem) (s.slots.set i (t.args, true)) s.listHead s.sweep .remove
  rw [hargs]
  refine ⟨seen, rest, hsplit, hsaw, ⟨hlist.seg, ?_, ?_⟩, hrest⟩
  · have hseen : s.sweep.next ∉ s.sweep.kept seen :=
      fun hk ↦ hsplit.notMem_seen (by simp) (Sweep.mem_kept.mp hk).1
    have hne : ∀ qs : List ℕ, s.sweep.next ∉ qs → qs.filter (· ≠ s.sweep.next) = qs := by
      intro qs hqs
      refine List.filter_eq_self.mpr ?_
      intro q hq
      simpa using fun he : q = s.sweep.next ↦ hqs (he ▸ hq)
    rw [unjoined_set hslot h.blocks.nodup_slots, hlist.unjoined, List.filter_append,
      List.filter_cons_of_neg (by simp), hne _ hseen, hne _ hsplit.notMem_rest]
  · intro slot hmem hj hne
    rcases List.mem_or_eq_of_mem_set hmem with hmem | rfl
    · exact hlist.gone slot hmem hj (h.slot_ne_null slot hmem)
    · exact absurd rfl hne

/-- The element comes first and is taken out, or the scan begins. -/
theorem Sound.sweep_remove (h : s.Sound) {caller : Caller} (hpc : s.pc = .sweep caller .remove)
    (hs : s.sweepStep caller .remove .ok = some s') : s'.Sound := by
  obtain ⟨seen, rest, hsplit, hsaw, hlist, hrest⟩ := h.sweepAt hpc
  have hseen : s.sweep.next ∉ s.sweep.kept seen :=
    fun hk ↦ hsplit.notMem_seen (by simp) (Sweep.mem_kept.mp hk).1
  rw [sweepStep] at hs
  cases hk : s.sweep.kept seen with
  | nil =>
    have hseg := hlist.seg
    rw [hk] at hseg
    have hhead := hseg.1
    obtain ⟨r, hr, hr'⟩ := hseg.removeHead
    obtain ⟨args, hblock, rfl⟩ := exists_of_links hr
    rw [if_pos hhead, hhead, deref_of_block hblock, Option.some_inj] at hs
    subst hs
    refine ⟨h.blocks, ⟨seen, rest, hsplit, hsaw, ?_, hrest, by simp [hr]⟩,
      ownsArgs_of_ne (by simp) (by simp)⟩
    exact ⟨by rw [hk]; exact hr', hlist.unjoined, hlist.gone⟩
  | cons k ks =>
    have hseg := hlist.seg
    rw [hk] at hseg
    have hhead : s.listHead ∈ s.sweep.kept seen := by
      rw [hk, hseg.1]
      exact List.mem_cons_self
    have hne : s.listHead ≠ s.sweep.next := fun he ↦ hseen (he ▸ hhead)
    rw [if_neg hne, Option.some_inj] at hs
    subst hs
    exact ⟨h.blocks, ⟨seen, rest, ⟨hsplit.before, hsplit.nodup, hsplit.saw⟩, hsaw, hlist, hrest,
      hhead⟩, ownsArgs_of_ne (by simp) (by simp)⟩

/-- The scan goes on, or the element comes next and is taken out. -/
theorem Sound.sweep_scan (h : s.Sound) {caller : Caller} (hpc : s.pc = .sweep caller .scan)
    (hs : s.sweepStep caller .scan .ok = some s') : s'.Sound := by
  obtain ⟨seen, rest, hsplit, hsaw, hlist, hrest, hcur⟩ := h.sweepAt hpc
  have hseen : s.sweep.next ∉ s.sweep.kept seen :=
    fun hk ↦ hsplit.notMem_seen (by simp) (Sweep.mem_kept.mp hk).1
  obtain ⟨as, bs, hk⟩ := List.append_of_mem hcur
  have hseg : Seg 0 (links s.mem) s.listHead
      (as ++ s.sweep.curelm :: (bs ++ s.sweep.next :: rest)) 0 := by
    have hseg := hlist.seg
    rw [hk, List.append_assoc, List.cons_append] at hseg
    exact hseg
  obtain ⟨r, hr, hrseg⟩ := hseg.link_mid
  obtain ⟨cur, hblock, rfl⟩ := exists_of_links hr
  rw [sweepStep, deref_of_block hblock] at hs
  cases bs with
  | nil =>
    obtain ⟨hnext, -, q, hq, -⟩ := hrseg
    obtain ⟨elm, helm, rfl⟩ := exists_of_links hq
    rw [if_pos hnext, hnext, deref_of_block helm, Option.some_inj] at hs
    subst hs
    have hne : s.sweep.next ≠ s.sweep.curelm := fun he ↦ hseen (he ▸ hcur)
    refine ⟨h.blocks.relink hblock _, ?_, ownsArgs_of_ne (by simp) (by simp)⟩
    change SweepAt (links (s.mem.put _ _)) s.slots s.listHead s.sweep .free
    rw [links_put hblock]
    refine ⟨seen, rest, hsplit, hsaw, ⟨?_, hlist.unjoined, ?_⟩, ?_, ?_⟩
    · rw [hk, List.append_assoc, List.cons_append]
      exact hseg.removeAfter hq
    · intro slot hslot hj hgone
      have hslot' := hlist.gone slot hslot hj hgone
      rw [Function.update_of_ne]
      · exact hslot'
      · intro he
        rw [he, hr] at hslot'
        exact absurd hslot' (by simp)
    · refine hrest.update_of_notMem ?_ _
      intro hmem
      exact hsplit.notMem_seen (List.mem_append_right _ hmem) (Sweep.mem_kept.mp hcur).1
    · rw [Function.update_of_ne hne, hq]
      simp
  | cons b bs =>
    have hb : cur.next ∈ s.sweep.kept seen := by
      rw [hk, hrseg.1]
      simp
    have hne : cur.next ≠ s.sweep.next := fun he ↦ hseen (he ▸ hb)
    rw [if_neg hne, Option.some_inj] at hs
    subst hs
    refine ⟨h.blocks, ?_, ownsArgs_of_ne (by simp [hpc]) (by simp [hpc])⟩
    change ListAt _ _ _ _ _ s.pc
    rw [hpc]
    exact ⟨seen, rest, ⟨hsplit.before, hsplit.nodup, hsplit.saw⟩, hsaw, hlist, hrest, hb⟩

/-- The block is freed. -/
theorem Sound.sweep_free (h : s.Sound) {caller : Caller} (hpc : s.pc = .sweep caller .free)
    (hs : s.sweepStep caller .free .ok = some s') : s'.Sound := by
  obtain ⟨seen, rest, hsplit, hsaw, hlist, hrest, hlive⟩ := h.sweepAt hpc
  obtain ⟨r, hr⟩ := Option.ne_none_iff_exists'.mp hlive
  obtain ⟨args, hblock, -⟩ := exists_of_links hr
  have hnot : s.sweep.next ∉ s.sweep.kept seen ++ rest := by
    rw [List.mem_append, not_or]
    exact ⟨fun hk ↦ hsplit.notMem_seen (by simp) (Sweep.mem_kept.mp hk).1, hsplit.notMem_rest⟩
  rw [sweepStep, Option.some_inj] at hs
  subst hs
  refine ⟨h.blocks.free hblock ?_, ?_, ownsArgs_of_ne (by simp) (by simp)⟩
  · change _ ∉ unjoined s.slots
    rw [hlist.unjoined]
    exact hnot
  · change SweepAt (links (s.mem.free _)) s.slots s.listHead
      { s.sweep with next := s.sweep.nextTemp } .test
    rw [links_free]
    refine ⟨seen ++ [s.sweep.next], rest, hsplit.advance rfl rfl rfl, ?_, ?_⟩
    · change Linked _ _ _ (s.sweep.kept _ ++ _) (s.sweep.kept _ ++ _) _
      rw [Sweep.kept_concat_of_saw hsaw]
      refine ⟨hlist.seg.update_of_notMem hnot _, hlist.unjoined, ?_⟩
      intro slot hslot hj _
      rw [Function.update_apply]
      split
      · rfl
      · rename_i hne
        exact hlist.gone slot hslot hj hne
    · exact hrest.update_of_notMem hsplit.notMem_rest _

/-- **One action.** -/
theorem Sound.step (h : s.Sound) {a : Action} (hs : s.step build a = some s') : s'.Sound := by
  cases a with
  | main o =>
    rw [Process.step, mainStep] at hs
    split at hs
    · rename_i hpc
      exact h.setup hpc hs
    · rename_i hpc
      exact h.loop hpc hs
    · rename_i caller pc hpc
      obtain rfl := ok_of_sweepStep hs
      cases pc with
      | test => exact h.sweep_test hpc hs
      | finished => exact h.sweep_finished hpc hs
      | join => exact h.sweep_join hpc hs
      | remove => exact h.sweep_remove hpc hs
      | scan => exact h.sweep_scan hpc hs
      | free => exact h.sweep_free hpc hs
    · rename_i hpc
      exact h.cleanup hpc hs
    · exact absurd hs (by simp)
    · exact absurd hs (by simp)
  | signal sig =>
    obtain ⟨-, rfl⟩ := Option.ite_some_none_eq_some.mp hs
    cases sig <;> exact ⟨h.blocks, h.list, h.owns⟩
  | client i o => exact h.client hs
  | clientEnd i => exact h.clientEnd hs
  | fire =>
    obtain ⟨-, rfl⟩ := Option.ite_some_none_eq_some.mp hs
    exact ⟨h.blocks, h.list, h.owns⟩
  | timer j o =>
    obtain ⟨_, _, -, -, rfl⟩ := timerStep_eq_some.mp hs
    exact ⟨h.blocks, h.list, h.owns⟩

/-! ## Every run -/

/-- Sound, and the file and the mutex have not gone too early. -/
theorem sound_of_run {argv : List String} {garbage : ℤ} {as : List Action}
    (hrun : as.foldlM (Process.step build) (init argv garbage) = some s) : s.Sound ∧ s.Closing :=
  ⟨Run.foldlM_invariant (fun _ _ _ h hs ↦ h.step hs) hrun (sound_init argv garbage),
    Run.foldlM_invariant (fun _ _ _ h hs ↦ h.step hs) hrun (closing_init argv garbage)⟩

/-- The list in memory has the blocks `ps`, none of them twice. -/
def HasList (s : Process) (ps : List ℕ) : Prop :=
  Seg 0 (links s.mem) s.listHead ps 0 ∧ ps.Nodup

/-- When the list is empty and nothing is in between, every thread has been joined and its block has
been freed. -/
theorem Sound.reaped (h : s.Sound)
    (hlist : Linked (links s.mem) s.slots s.listHead (unjoined s.slots) (unjoined s.slots) 0)
    (hempty : unjoined s.slots = []) {t : Thread} (hi : s.threads[i]? = some t) :
    t.joined = true ∧ s.joins.count i = 1 ∧ s.mem.frees.count t.args = 1 := by
  have hmem := List.mem_of_getElem? hi
  have hslot : t.slot ∈ s.slots := List.mem_map_of_mem hmem
  have hjoined : t.joined = true := by
    rw [← Bool.not_eq_false]
    intro hj
    have hun : t.args ∈ unjoined s.slots := mem_unjoined.mpr (hj ▸ hslot)
    rw [hempty] at hun
    exact absurd hun List.not_mem_nil
  obtain ⟨h0, hlt⟩ := h.blocks.given t hmem
  have hdead : s.mem.block t.args = none :=
    Option.map_eq_none_iff.mp (hlist.gone t.slot hslot hjoined h0)
  refine ⟨hjoined, ?_, h.blocks.accounted.count_of_dead h0 hlt hdead⟩
  rw [h.blocks.counted i t hi, if_pos hjoined]

end Process

/-- **Threads are joined once, and blocks freed once.**  In every run:

* nothing undefined happens, and nothing is freed that is not live;
* after every iteration of the accept loop the list has the blocks of the threads that have not been
  joined, each once, newest first;
* at every test of the traversal, so when it begins and when it ends, the list is the one that the
  sweep began with, in its order, without the blocks whose `finished` the sweep has found set;
* no thread is joined twice, no block is freed twice, and a block is only freed when its thread has
  set `finished`, has ended and has been joined;
* when `remove_all_remaining_threads` has returned, and when the mutex has been destroyed, every
  thread has been joined and its block freed, once. -/
theorem threads_reaped (build : Build) (argv : List String) (garbage : ℤ) (as : List Action)
    (s : Process) (hrun : as.foldlM (Process.step build) (.init argv garbage) = some s) :
    s.pc ≠ .undefined ∧ s.mem.badFrees = [] ∧
      (s.pc = .loop .test → s.HasList (unjoined s.slots)) ∧
      (∀ caller, s.pc = .sweep caller .test →
        s.HasList (s.sweep.before.filter (· ∉ s.sweep.saw))) ∧
      (∀ i t, s.threads[i]? = some t →
        s.joins.count i ≤ 1 ∧ s.mem.frees.count t.args ≤ 1 ∧
          (s.mem.block t.args = none →
            t.sock.finished = true ∧ t.ended = true ∧ t.joined = true)) ∧
      (s.pc ∈
          [.cleanup .removeFile, .cleanup .mutexDestroy, .cleanup .closeServer, .cleanup .done] ∨
          s.mutex = .destroyed →
        ∀ i t, s.threads[i]? = some t →
          t.joined = true ∧ s.joins.count i = 1 ∧ s.mem.frees.count t.args = 1) := by
  obtain ⟨h, hclosing⟩ := Process.sound_of_run hrun
  have hundef : s.pc ≠ .undefined := fun hpc ↦ h.listAt hpc
  refine ⟨hundef, h.blocks.badFrees, ?_, ?_, ?_, ?_⟩
  · intro hpc
    have hlist : Linked _ _ _ _ _ _ := h.listAt hpc
    exact ⟨hlist.seg, hlist.seg.nodup⟩
  · intro caller hpc
    obtain ⟨seen, rest, hsplit, hlist, -⟩ := h.sweepAt hpc
    rw [hsplit.filter_before]
    exact ⟨hlist.seg, hlist.seg.nodup⟩
  · intro i t hi
    have hmem := List.mem_of_getElem? hi
    have hst := h.blocks.staged t hmem
    refine ⟨?_, h.blocks.accounted.count_le (h.blocks.given t hmem).1, ?_⟩
    · rw [h.blocks.counted i t hi]
      split <;> omega
    · intro hdead
      have hjoined : t.joined = true := by
        rw [← Bool.not_eq_false]
        intro hj
        obtain ⟨args, hblock, -⟩ := h.blocks.live i t hi hj
        exact absurd (hblock.symm.trans hdead) (by simp)
      have hended := hst.joined hjoined
      exact ⟨hst.finished.mpr (hst.ended hended), hended, hjoined⟩
  · intro hend i t hi
    have hpc : s.pc ∈ [.cleanup .removeFile, .cleanup .mutexDestroy, .cleanup .closeServer,
        .cleanup .done] := by
      rcases hend with hpc | hm
      · exact hpc
      · have hlate := hclosing.destroyed hm
        simp only [List.mem_cons, List.not_mem_nil, or_false] at hlate ⊢
        exact hlate.elim (fun he ↦ .inr (.inr (.inl he)))
          fun hd ↦ .inr (.inr (.inr (hd.resolve_right hundef)))
    have hcleanup : ∃ pc, s.pc = .cleanup pc ∧
        pc ∈ [CleanupPc.removeFile, .mutexDestroy, .closeServer, .done] := by
      simp only [List.mem_cons, List.not_mem_nil, or_false] at hpc
      rcases hpc with hpc | hpc | hpc | hpc <;> exact ⟨_, hpc, by simp⟩
    obtain ⟨pc, hpc, hafter⟩ := hcleanup
    obtain ⟨hlist, hempty⟩ := h.listAt hpc
    exact h.reaped hlist (hempty hafter) hi

/-- The actions of `main` that follow one another without a choice. -/
def mainOks (n : ℕ) : List Action := List.replicate n (.main .ok)

/-- `main` accepts a connection, creates a thread for it and looks through its list. -/
def connect (fd steps : ℕ) : List Action :=
  [.main (.fd fd), .main .ok, .main (.thread 0)] ++ mainOks steps

/-- A thread that fails in `malloc`. -/
def failing (i : ℕ) : List Action :=
  [.client i (.fail 12), .client i .ok, .client i .ok, .clientEnd i]

/-- Three clients, of whose threads the second is the first to end; after a signal `main` looks
through its list. -/
def threeClientsRun : List Action :=
  mainOks 8 ++ connect 5 6 ++ connect 6 8 ++ connect 7 10 ++ failing 1 ++
    [.signal .sigint, .main .fail] ++ mainOks 13

/-- The others end too, and `main` goes on to its end. -/
def threeClientsEnd : List Action := failing 0 ++ failing 2 ++ mainOks 16

/-- First the block in the middle is taken out of the list; in the end all the threads have been
joined, and their blocks freed. -/
theorem threads_reaped_three :
    ∃ s t : Process, threeClientsRun.foldlM (Process.step .device) (.init [] 0) = some s ∧
      (threeClientsRun ++ threeClientsEnd).foldlM (Process.step .device) (.init [] 0) = some t ∧
      s.joins = [1] ∧ s.HasList [3, 1] ∧ t.joins = [0, 2, 1] ∧
      ∀ (i : ℕ) (u : Thread), t.threads[i]? = some u →
        u.joined = true ∧ t.mem.frees.count u.args = 1 := by
  have hrun : (threeClientsRun.foldlM (Process.step .device) (.init [] 0)).map
      (fun s ↦ (s.pc, s.joins, s.sweep.before, s.sweep.saw)) =
      some (.sweep .drain .test, [1], [3, 2, 1], [2]) := by decide +kernel
  have hend : ((threeClientsRun ++ threeClientsEnd).foldlM (Process.step .device)
      (.init [] 0)).map (fun t ↦ (t.pc, t.joins)) = some (.cleanup .done, [0, 2, 1]) := by
    decide +kernel
  obtain ⟨s, hs, hfacts⟩ := Option.map_eq_some_iff.mp hrun
  simp only [Prod.mk.injEq] at hfacts
  obtain ⟨hpc, hjoins, hbefore, hsaw⟩ := hfacts
  obtain ⟨t, ht, hfacts⟩ := Option.map_eq_some_iff.mp hend
  obtain ⟨hdone, hall⟩ := Prod.mk.inj hfacts
  obtain ⟨-, -, -, hsweep, -⟩ := threads_reaped .device [] 0 threeClientsRun s hs
  have hlist := hsweep .drain hpc
  rw [hbefore, hsaw] at hlist
  obtain ⟨-, -, -, -, -, hreaped⟩ := threads_reaped .device [] 0 _ t ht
  refine ⟨s, t, hs, ht, hjoins, hlist, hall, ?_⟩
  intro i u hi
  obtain ⟨hjoined, -, hfrees⟩ := hreaped (.inl (by simp [hdone])) i u hi
  exact ⟨hjoined, hfrees⟩

end Aesd
