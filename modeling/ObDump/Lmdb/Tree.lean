import ObDump.Lmdb.Cursor

/-!
# The tree of pages and the path to a leaf

Library `Lmdb`. What it means that the pages under a root hold a list of entries: leaves hold
runs of it, and the keys on a branch page separate the runs of its children. The stack of a
cursor is a path in this tree; it cuts the list into the entries before a page, those under
it, and those after it.
-/

namespace ObDump.Lmdb

open Base

/-! ### Pages that hold entries -/

/-- A leaf node holds an entry, its data on the page or on overflow pages. -/
structure Holds (txn : MDB_txn) (leaf : MDB_node) (e : Entry) : Prop where
  key : leaf.mn_key = e.1
  size : leaf.NODEDSZ = e.2.length
  single : F_ISSET leaf.mn_flags F_DUPDATA = false
  data : F_ISSET leaf.mn_flags F_BIGDATA = false ∧ leaf.mn_rest.take leaf.NODEDSZ = e.2 ∨
    F_ISSET leaf.mn_flags F_BIGDATA = true ∧ ofLE (leaf.mn_rest.take 8) < txn.mt_next_pgno ∧
      (txn.me_map (ofLE (leaf.mn_rest.take 8))).mp_data.take leaf.NODEDSZ = e.2

/-- A leaf page that holds entries. -/
structure LeafPage (txn : MDB_txn) (mp : MDB_page) (es : List Entry) : Prop where
  branch : mp.IS_BRANCH = false
  leaf : mp.IS_LEAF = true
  leaf2 : mp.IS_LEAF2 = false
  ne_nil : es ≠ []
  nodes : List.Forall₂ (Holds txn) mp.mp_nodes es

/-- A branch page whose children hold runs of entries. The key of every node but the first
lies above the entries of the children before it, and not above those from it on. -/
structure Children (txn : MDB_txn) (sub : Nat → List Entry → Prop) (mp : MDB_page)
    (ess : List (List Entry)) : Prop where
  branch : mp.IS_BRANCH = true
  leaf : mp.IS_LEAF = false
  leaf2 : mp.IS_LEAF2 = false
  many : 1 < mp.NUMKEYS
  length : ess.length = mp.NUMKEYS
  child : ∀ i node es, mp.NODEPTR i = some node → ess[i]? = some es →
    node.NODEPGNO < txn.mt_next_pgno ∧ sub node.NODEPGNO es
  before : ∀ i j node es, mp.NODEPTR i = some node → j < i → ess[j]? = some es →
    ∀ e ∈ es, e.1 < node.mn_key
  from_on : ∀ i j node es, 0 < i → mp.NODEPTR i = some node → i ≤ j → ess[j]? = some es →
    ∀ e ∈ es, node.mn_key ≤ e.1

/-- The pages under a page hold the entries, every leaf `d` levels below. -/
def Subtree (txn : MDB_txn) : Nat → Nat → List Entry → Prop
  | 0, pgno, es => LeafPage txn (txn.me_map pgno) es
  | d + 1, pgno, es =>
    ∃ ess, es = ess.flatten ∧ Children txn (Subtree txn d) (txn.me_map pgno) ess

/-- The main database of the transaction holds the store. -/
structure MDB_txn.Stores (txn : MDB_txn) (store : Store) : Prop where
  empty : store.entries = [] → txn.md_root = P_INVALID
  tree : store.entries ≠ [] → 1 < txn.md_root ∧ txn.md_root ≠ P_INVALID ∧
    txn.md_root < txn.mt_next_pgno ∧ ∃ d < CURSOR_STACK, Subtree txn d txn.md_root store.entries

section

variable {txn : MDB_txn} {d pgno : Nat} {es : List Entry} {mp : MDB_page}

/-- A leaf has one node an entry. -/
theorem LeafPage.length (h : LeafPage txn mp es) : mp.NUMKEYS = es.length := h.nodes.length_eq

/-- A leaf is not empty. -/
theorem LeafPage.pos (h : LeafPage txn mp es) : 0 < mp.NUMKEYS := by
  rw [h.length]
  exact List.length_pos_iff.mpr h.ne_nil

/-- The node at the index of an entry holds it. -/
theorem LeafPage.holds {i : Nat} {e : Entry} (h : LeafPage txn mp es) (he : es[i]? = some e) :
    ∃ leaf, mp.NODEPTR i = some leaf ∧ Holds txn leaf e := by
  obtain ⟨hi, rfl⟩ := List.getElem?_eq_some_iff.mp he
  have hi' : i < mp.mp_nodes.length := by
    rw [h.nodes.length_eq]
    exact hi
  exact ⟨mp.mp_nodes[i], List.getElem?_eq_getElem hi', List.Forall₂.get h.nodes hi' hi⟩

/-- The entry at the index of a node is what the node holds. -/
theorem LeafPage.entry {i : Nat} {leaf : MDB_node} (h : LeafPage txn mp es)
    (hn : mp.NODEPTR i = some leaf) : ∃ e, es[i]? = some e ∧ Holds txn leaf e := by
  have hi : i < es.length := by
    rw [← h.length]
    exact MDB_page.lt_NUMKEYS hn
  obtain ⟨leaf', hn', hh⟩ := h.holds (List.getElem?_eq_getElem hi)
  obtain rfl : leaf' = leaf := Option.some_inj.mp (hn'.symm.trans hn)
  exact ⟨es[i], List.getElem?_eq_getElem hi, hh⟩

/-- Nodes that hold entries have their keys. -/
theorem map_key_of_holds {nodes : List MDB_node} (h : List.Forall₂ (Holds txn) nodes es) :
    nodes.map MDB_node.mn_key = es.map Prod.fst := by
  induction h with
  | nil => rfl
  | cons hh _ ih => rw [List.map_cons, List.map_cons, hh.key, ih]

/-- Subtrees hold at least one entry. -/
theorem Subtree.ne_nil (h : Subtree txn d pgno es) : es ≠ [] := by
  induction d generalizing pgno es with
  | zero => exact LeafPage.ne_nil h
  | succ d ih =>
    obtain ⟨ess, rfl, hc⟩ := h
    have hl : 0 < ess.length := by
      have := hc.many
      rw [hc.length]
      omega
    obtain ⟨node, hn⟩ := (txn.me_map pgno).exists_NODEPTR (i := 0)
      (by have := hc.many; omega)
    have hsub := (hc.child 0 node ess[0] hn (List.getElem?_eq_getElem hl)).2
    intro hnil
    exact ih hsub (List.flatten_eq_nil_iff.mp hnil _ (List.getElem_mem hl))

/-- The children of a branch page hold at least one entry each. -/
theorem Children.ne_nil {ess : List (List Entry)} (h : Children txn (Subtree txn d) mp ess) :
    [] ∉ ess := by
  intro hm
  obtain ⟨i, hi, he⟩ := List.getElem_of_mem hm
  obtain ⟨node, hn⟩ := mp.exists_NODEPTR (i := i) (by rw [← h.length]; exact hi)
  have hsub := (h.child i node _ hn (List.getElem?_eq_getElem hi)).2
  exact hsub.ne_nil he

/-- The keys of a branch page increase, but for the first, which is not used. -/
theorem Children.sorted {ess : List (List Entry)} (h : Children txn (Subtree txn d) mp ess) :
    (mp.mp_nodes.drop 1).Pairwise (fun a b ↦ a.mn_key < b.mn_key) := by
  apply List.pairwise_iff_getElem.mpr
  intro i j hi hj hij
  rw [List.length_drop] at hi hj
  have hlen := h.length
  unfold MDB_page.NUMKEYS at hlen
  have hi' : 1 + i < ess.length := by omega
  have hne : ess[1 + i] ≠ [] := fun he ↦ h.ne_nil (he ▸ List.getElem_mem hi')
  obtain ⟨e, he⟩ := List.exists_mem_of_ne_nil _ hne
  simp only [List.getElem_drop]
  have hle := h.from_on (1 + i) (1 + i) mp.mp_nodes[1 + i] _ (by omega)
    (List.getElem?_eq_getElem (by omega)) (Nat.le_refl _) (List.getElem?_eq_getElem hi') e he
  have hlt := h.before (1 + j) (1 + i) mp.mp_nodes[1 + j] _
    (List.getElem?_eq_getElem (by omega)) (by omega) (List.getElem?_eq_getElem hi') e he
  exact List.lt_of_le_of_lt hle hlt

/-- A list of lists around one of them. -/
theorem flatten_split {ess : List (List Entry)} {i : Nat} {sub : List Entry}
    (h : ess[i]? = some sub) :
    ess.flatten = (ess.take i).flatten ++ sub ++ (ess.drop (i + 1)).flatten := by
  obtain ⟨hi, rfl⟩ := List.getElem?_eq_some_iff.mp h
  calc ess.flatten = (ess.take i ++ ess[i] :: ess.drop (i + 1)).flatten := by
        rw [List.getElem_cons_drop, List.take_append_drop]
    _ = _ := by rw [List.flatten_append, List.flatten_cons, List.append_assoc]

end

/-! ### Paths -/

/-- The pages and indices of the stack up to level `l` are a path from the root: the page
`pgno` there has its leaves `d` levels below, and cuts the entries into those before it, those
under it and those after it. -/
inductive Spine (txn : MDB_txn) (entries : List Entry) (depth : Nat) (pg : Nat → Option MDB_page)
    (ki : Nat → Nat) : Nat → Nat → Nat → List Entry → List Entry → List Entry → Prop
  | root : pg 0 = some (txn.me_map txn.md_root) → Subtree txn depth txn.md_root entries →
      Spine txn entries depth pg ki 0 depth txn.md_root [] entries []
  | child {l d pgno : Nat} {before after sub : List Entry} {ess : List (List Entry)}
      {node : MDB_node} :
      Spine txn entries depth pg ki l (d + 1) pgno before ess.flatten after →
      Children txn (Subtree txn d) (txn.me_map pgno) ess →
      (txn.me_map pgno).NODEPTR (ki l) = some node → ess[ki l]? = some sub →
      pg (l + 1) = some (txn.me_map node.NODEPGNO) →
      Spine txn entries depth pg ki (l + 1) d node.NODEPGNO
        (before ++ (ess.take (ki l)).flatten) sub ((ess.drop (ki l + 1)).flatten ++ after)

namespace Spine

variable {txn : MDB_txn} {entries : List Entry} {depth : Nat} {pg : Nat → Option MDB_page}
  {ki : Nat → Nat} {l d pgno : Nat} {before sub after : List Entry}

/-- The page of the last level is on the stack. -/
theorem page (h : Spine txn entries depth pg ki l d pgno before sub after) :
    pg l = some (txn.me_map pgno) := by
  cases h with
  | root hp _ => exact hp
  | child _ _ _ _ hp => exact hp

/-- The entries under the last page. -/
theorem subtree (h : Spine txn entries depth pg ki l d pgno before sub after) :
    Subtree txn d pgno sub := by
  cases h with
  | root _ ht => exact ht
  | child _ hc hn hs _ => exact (hc.child _ _ _ hn hs).2

/-- The entries before the page, under it and after it are all there are. -/
theorem entries_eq (h : Spine txn entries depth pg ki l d pgno before sub after) :
    before ++ sub ++ after = entries := by
  induction h with
  | root _ _ => rw [List.nil_append, List.append_nil]
  | child _ _ _ hs _ ih =>
    rw [flatten_split hs] at ih
    rw [← ih]
    simp only [List.append_assoc]

/-- The levels above the page and below it. -/
theorem level (h : Spine txn entries depth pg ki l d pgno before sub after) : l + d = depth := by
  induction h with
  | root _ _ => exact Nat.zero_add depth
  | child _ _ _ _ _ ih => omega

/-- Only the slots up to the page matter. -/
theorem congr (pg' : Nat → Option MDB_page) (ki' : Nat → Nat)
    (h : Spine txn entries depth pg ki l d pgno before sub after) (hp : ∀ j ≤ l, pg' j = pg j)
    (hk : ∀ j < l, ki' j = ki j) :
    Spine txn entries depth pg' ki' l d pgno before sub after := by
  induction h with
  | root hr ht => exact .root ((hp 0 (Nat.le_refl 0)).trans hr) ht
  | @child l d pgno before after sub ess node _ hc hn hs hq ih =>
    have hkl : ki' l = ki l := hk l (Nat.lt_succ_self l)
    have hpar := ih (fun j hj ↦ hp j (by omega)) (fun j hj ↦ hk j (by omega))
    have := Spine.child hpar hc (hkl.symm ▸ hn) (hkl.symm ▸ hs) ((hp (l + 1) (by omega)).trans hq)
    rwa [hkl] at this

/-- No entry after the page: every page above it is left at its last node. -/
theorem after_eq_nil_iff (h : Spine txn entries depth pg ki l d pgno before sub after) :
    after = [] ↔ ∀ j < l, ∀ mp, pg j = some mp → mp.NUMKEYS ≤ ki j + 1 := by
  induction h with
  | root _ _ => simp
  | @child l d pgno before after sub ess node hpar hc hn hs _ ih =>
    have hpage := hpar.page
    have hki := MDB_page.lt_NUMKEYS hn
    have hdrop : (ess.drop (ki l + 1)).flatten = [] ↔ (txn.me_map pgno).NUMKEYS ≤ ki l + 1 := by
      rw [← hc.length]
      constructor
      · intro hf
        by_contra hlt
        have hlt' : ki l + 1 < ess.length := Nat.lt_of_not_le hlt
        have hm : ess[ki l + 1] ∈ ess.drop (ki l + 1) := by
          rw [List.drop_eq_getElem_cons hlt']
          exact List.mem_cons_self
        have := List.flatten_eq_nil_iff.mp hf _ hm
        exact hc.ne_nil (this ▸ List.getElem_mem hlt')
      · intro hle
        rw [List.drop_eq_nil_of_le hle, List.flatten_nil]
    rw [List.append_eq_nil_iff, ih, hdrop]
    constructor
    · rintro ⟨hlast, habove⟩ j hj mp hmp
      by_cases hjl : j = l
      · subst hjl
        obtain rfl : txn.me_map pgno = mp := Option.some_inj.mp (hpage.symm.trans hmp)
        exact hlast
      · exact habove j (by omega) mp hmp
    · intro hall
      exact ⟨hall l (Nat.lt_succ_self l) _ hpage, fun j hj ↦ hall j (by omega)⟩

/-- A path passes through every level above its end. -/
theorem ancestor (l' : Nat) (h : Spine txn entries depth pg ki l d pgno before sub after)
    (hl : l' ≤ l) :
    ∃ d' pgno' before' sub' after',
      Spine txn entries depth pg ki l' d' pgno' before' sub' after' := by
  induction h with
  | root hp ht =>
    obtain rfl : l' = 0 := by omega
    exact ⟨_, _, _, _, _, .root hp ht⟩
  | @child l d pgno before after sub ess node hpar hc hn hs hq ih =>
    by_cases hle : l' ≤ l
    · exact ih hle
    · obtain rfl : l' = l + 1 := by omega
      exact ⟨_, _, _, _, _, .child hpar hc hn hs hq⟩

end Spine

end ObDump.Lmdb
