import ObDump.Lmdb.Runs

/-!
# The pages of a snapshot

Library `Lmdb`. The pages a tree occupies, its overflow pages included. What a transaction
reads depends on these pages only: where another map has the same ones, the same store is read
there, and a cursor whose pages lie in that map has the same position.
-/

namespace ObDump.Lmdb

open Base

/-! ### Occupied pages -/

/-- `PAGEHDRSZ`; `dart/src/lmdb/mdb.c:862`. -/
def PAGEHDRSZ : Nat := 16

/-- `OVPAGES`; `dart/src/lmdb/mdb.c:896`. -/
def OVPAGES (size psize : Nat) : Nat := (PAGEHDRSZ - 1 + size) / psize + 1

/-- The pages of a tree but for overflow pages. -/
inductive TreePage (map : Nat → MDB_page) (root : Nat) : Nat → Prop
  | root : TreePage map root root
  | child {p : Nat} {node : MDB_node} : TreePage map root p → (map p).IS_BRANCH = true →
      node ∈ (map p).mp_nodes → TreePage map root node.NODEPGNO

/-- The pages of a tree. -/
inductive Occupies (psize : Nat) (map : Nat → MDB_page) (root : Nat) : Nat → Prop
  | tree {p : Nat} : TreePage map root p → Occupies psize map root p
  | overflow {p i : Nat} {node : MDB_node} : TreePage map root p → (map p).IS_LEAF = true →
      node ∈ (map p).mp_nodes → F_ISSET node.mn_flags F_BIGDATA = true →
      i < OVPAGES node.NODEDSZ psize → Occupies psize map root (ofLE (node.mn_rest.take 8) + i)

section

variable {psize : Nat} {map map' : Nat → MDB_page} {root p q : Nat}

private theorem TreePage.trans (h : TreePage map root p) (h' : TreePage map p q) :
    TreePage map root q := by
  induction h' with
  | root => exact h
  | child _ hb hn ih => exact .child ih hb hn

private theorem Occupies.trans (h : TreePage map root p) (h' : Occupies psize map p q) :
    Occupies psize map root q := by
  cases h' with
  | tree h' => exact .tree (h.trans h')
  | overflow h' hl hn hf hi => exact .overflow (h.trans h') hl hn hf hi

/-- The tree lies in the same pages of a map that has them. -/
theorem TreePage.congr (hmap : ∀ p, Occupies psize map root p → map' p = map p)
    (h : TreePage map root p) : TreePage map' root p := by
  induction h with
  | root => exact .root
  | child h hb hn ih =>
    have heq := hmap _ (.tree h)
    exact .child ih (heq ▸ hb) (heq ▸ hn)

private theorem TreePage.congr_rev (hmap : ∀ p, Occupies psize map root p → map' p = map p)
    (h : TreePage map' root p) : TreePage map root p := by
  induction h with
  | root => exact .root
  | child _ hb hn ih =>
    have heq := hmap _ (.tree ih)
    exact .child ih (heq ▸ hb) (heq ▸ hn)

/-- A tree lies in the same pages of a map that has them. -/
theorem occupies_congr (hmap : ∀ p, Occupies psize map root p → map' p = map p) :
    Occupies psize map' root p ↔ Occupies psize map root p := by
  constructor
  · intro h
    cases h with
    | tree h => exact .tree (h.congr_rev hmap)
    | overflow h hl hn hf hi =>
      have htree := h.congr_rev hmap
      have heq := hmap _ (.tree htree)
      exact .overflow htree (heq ▸ hl) (heq ▸ hn) hf hi
  · intro h
    cases h with
    | tree h => exact .tree (h.congr hmap)
    | overflow h hl hn hf hi =>
      have heq := hmap _ (.tree h)
      exact .overflow (h.congr hmap) (heq ▸ hl) (heq ▸ hn) hf hi

end

/-! ### The pages a cursor points at -/

/-- The cursor on the pages of another map: its `mc_pg` are pointers into the map, so each is the
page of that number there, whatever it has become. -/
def MDB_cursor.reload (mc : MDB_cursor) (map : Nat → MDB_page) : MDB_cursor :=
  { mc with mc_pg := fun l ↦ (mc.mc_pg l).map fun mp ↦ map mp.mp_pgno }

/-- The pages of the tree have their numbers, as `mdb_page_alloc` and `mdb_page_touch` set them;
`dart/src/lmdb/mdb.c:2336`, `2503`. -/
def MDB_txn.Numbered (txn : MDB_txn) : Prop :=
  txn.md_root ≠ P_INVALID → ∀ p, TreePage txn.me_map txn.md_root p → (txn.me_map p).mp_pgno = p

/-! ### Transactions that agree -/

/-- The second transaction has all the pages of the first one's database. -/
structure MDB_txn.Agrees (psize : Nat) (txn txn' : MDB_txn) : Prop where
  root : txn'.md_root = txn.md_root
  next : txn.mt_next_pgno ≤ txn'.mt_next_pgno
  pages : txn.md_root ≠ P_INVALID → ∀ p, Occupies psize txn.me_map txn.md_root p →
    txn'.me_map p = txn.me_map p

section

variable {psize : Nat} {txn txn' : MDB_txn}

/-- Two transactions that have the pages of a third agree with each other. -/
theorem MDB_txn.Agrees.trans_symm {txn₀ : MDB_txn} (h : txn₀.Agrees psize txn)
    (h' : txn₀.Agrees psize txn') (hnext : txn.mt_next_pgno ≤ txn'.mt_next_pgno) :
    txn.Agrees psize txn' where
  root := h'.root.trans h.root.symm
  next := hnext
  pages hinv p hp := by
    rw [h.root] at hinv hp
    have hpages := h.pages hinv
    have hp' := (occupies_congr hpages).mp hp
    rw [h'.pages hinv p hp', hpages p hp']

private theorem Holds.agrees {pgno : Nat} {leaf : MDB_node} {e : Entry}
    (hnext : txn.mt_next_pgno ≤ txn'.mt_next_pgno)
    (hpages : ∀ p, Occupies psize txn.me_map pgno p → txn'.me_map p = txn.me_map p)
    (hleaf : (txn.me_map pgno).IS_LEAF = true) (hn : leaf ∈ (txn.me_map pgno).mp_nodes)
    (h : Holds txn leaf e) : Holds txn' leaf e where
  key := h.key
  size := h.size
  single := h.single
  data := by
    obtain hd | ⟨hf, hlt, hd⟩ := h.data
    · exact .inl hd
    · have hov : Occupies psize txn.me_map pgno (ofLE (leaf.mn_rest.take 8) + 0) :=
        .overflow .root hleaf hn hf (Nat.succ_pos _)
      refine .inr ⟨hf, Nat.lt_of_lt_of_le hlt hnext, ?_⟩
      have heq := hpages _ hov
      rw [Nat.add_zero] at heq
      rw [heq]
      exact hd

private theorem LeafPage.agrees {pgno : Nat} {es : List Entry}
    (hnext : txn.mt_next_pgno ≤ txn'.mt_next_pgno)
    (hpages : ∀ p, Occupies psize txn.me_map pgno p → txn'.me_map p = txn.me_map p)
    (h : LeafPage txn (txn.me_map pgno) es) : LeafPage txn' (txn'.me_map pgno) es := by
  rw [hpages pgno (.tree .root)]
  refine { h with nodes := ?_ }
  apply List.forall₂_iff_get.mpr
  refine ⟨h.nodes.length_eq, fun i hi he ↦ ?_⟩
  exact (h.nodes.get hi he).agrees hnext hpages h.leaf (List.get_mem _ _)

/-- Children of a branch page, from what holds of each child. -/
theorem Children.mono {sub sub' : Nat → List Entry → Prop} {mp : MDB_page}
    {ess : List (List Entry)} (hnext : txn.mt_next_pgno ≤ txn'.mt_next_pgno)
    (hsub : ∀ node ∈ mp.mp_nodes, ∀ es, sub node.NODEPGNO es → sub' node.NODEPGNO es)
    (h : Children txn sub mp ess) : Children txn' sub' mp ess :=
  { h with
    child := by
      intro i node es hn he
      obtain ⟨hlt, hs⟩ := h.child i node es hn he
      exact ⟨Nat.lt_of_lt_of_le hlt hnext, hsub node (List.mem_of_getElem? hn) es hs⟩ }

private theorem Subtree.agrees {d pgno : Nat} {es : List Entry}
    (hnext : txn.mt_next_pgno ≤ txn'.mt_next_pgno)
    (hpages : ∀ p, Occupies psize txn.me_map pgno p → txn'.me_map p = txn.me_map p)
    (h : Subtree txn d pgno es) : Subtree txn' d pgno es := by
  induction d generalizing pgno es with
  | zero => exact LeafPage.agrees hnext hpages h
  | succ d ih =>
    obtain ⟨ess, rfl, hc⟩ := h
    refine ⟨ess, rfl, ?_⟩
    rw [hpages pgno (.tree .root)]
    refine hc.mono hnext fun node hn es hs ↦ ih (fun p hp ↦ ?_) hs
    exact hpages p (.trans (.child .root hc.branch hn) hp)

variable (h : txn.Agrees psize txn')
include h

/-- The same store is read. -/
theorem MDB_txn.Agrees.stores {store : Store} (hs : txn.Stores store) : txn'.Stores store where
  empty he := h.root.trans (hs.empty he)
  tree hne := by
    obtain ⟨hgt, hinv, hlt, d, hd, htree⟩ := hs.tree hne
    rw [h.root]
    exact ⟨hgt, hinv, Nat.lt_of_lt_of_le hlt h.next, d, hd, htree.agrees h.next (h.pages hinv)⟩

variable {entries : List Entry} {depth : Nat}

/-- The tree has its numbers there too. -/
theorem MDB_txn.Agrees.numbered (hn : txn.Numbered) : txn'.Numbered := by
  intro hinv p hp
  rw [h.root] at hinv hp
  have hpages := h.pages hinv
  have hp' := hp.congr_rev hpages
  rw [hpages p (.tree hp')]
  exact hn hinv p hp'

private theorem MDB_txn.Agrees.hasTree (ht : HasTree txn entries depth) :
    HasTree txn' entries depth where
  root_gt := h.root ▸ ht.root_gt
  root_ne := h.root ▸ ht.root_ne
  root_lt := h.root ▸ Nat.lt_of_lt_of_le ht.root_lt h.next
  stack := ht.stack
  subtree := h.root ▸ ht.subtree.agrees h.next (h.pages ht.root_ne)

variable (hn : txn.Numbered)
include hn

/-- A path stays one when its pages are read again. -/
theorem MDB_txn.Agrees.spine {mc : MDB_cursor} {ki : Nat → Nat} {l d pgno : Nat}
    {before sub after : List Entry} (hinv : txn.md_root ≠ P_INVALID)
    (hs : Spine txn entries depth mc.mc_pg ki l d pgno before sub after) :
    TreePage txn.me_map txn.md_root pgno ∧
      Spine txn' entries depth (mc.reload txn'.me_map).mc_pg ki l d pgno before sub after := by
  have hpages := h.pages hinv
  -- The page of a slot, read again, is the one that was there.
  have hslot : ∀ {l p : Nat}, TreePage txn.me_map txn.md_root p →
      mc.mc_pg l = some (txn.me_map p) →
        (mc.reload txn'.me_map).mc_pg l = some (txn'.me_map p) := by
    intro l p hp hl
    simp only [MDB_cursor.reload, hl, Option.map_some, hn hinv p hp]
  induction hs with
  | root hp ht =>
    refine ⟨.root, ?_⟩
    rw [← h.root]
    apply Spine.root
    · rw [h.root]
      exact hslot .root hp
    · rw [h.root]
      exact ht.agrees h.next hpages
  | @child l d pgno before after sub ess node _ hc hnode he hp ih =>
    obtain ⟨htree, hpar⟩ := ih
    have hmem := List.mem_of_getElem? hnode
    have hchild : TreePage txn.me_map txn.md_root node.NODEPGNO := .child htree hc.branch hmem
    have heq := hpages _ (.tree htree)
    refine ⟨hchild, ?_⟩
    apply Spine.child hpar
    · rw [heq]
      apply hc.mono h.next
      intro node hn es hs
      have hsub : ∀ p, Occupies psize txn.me_map node.NODEPGNO p → txn'.me_map p = txn.me_map p :=
        fun p hp ↦ hpages p (.trans (.child htree hc.branch hn) hp)
      exact hs.agrees h.next hsub
    · rw [heq]
      exact hnode
    · exact he
    · exact hslot hchild hp

private theorem MDB_txn.Agrees.onLeaf {mc : MDB_cursor} {pgno : Nat} {before sub after : List Entry}
    (hinv : txn.md_root ≠ P_INVALID)
    (hl : OnLeaf txn entries depth mc pgno before sub after) :
    OnLeaf txn' entries depth (mc.reload txn'.me_map) pgno before sub after where
  on := { hl.on with spine := (h.spine hn hinv hl.on.spine).2 }
  initialized := hl.initialized
  eof := hl.eof

/-- A cursor has its position still, on what its pages have become. -/
theorem MDB_txn.Agrees.placed {mc : MDB_cursor} {p : Position} (hp : Placed txn entries mc p) :
    Placed txn' entries (mc.reload txn'.me_map) p := by
  cases hp with
  | unset hv hi hpg =>
    refine .unset hv hi ?_
    simp only [MDB_cursor.reload, hpg, Option.map_none]
  | on ht hl hk => exact .on (h.hasTree ht) (h.onLeaf hn ht.root_ne hl) hk
  | gap ht hl hk => exact .gap (h.hasTree ht) (h.onLeaf hn ht.root_ne hl) hk

end

end ObDump.Lmdb
