import ArmaraOS.Lib.Acyclic

/-!
Work that is done in waves.

Every node has a key and needs some keys. A wave does all nodes at once whose needs were met by
earlier waves. The work does not get stuck while a key that can be had is open, and with distinct
keys everything can be had exactly if every need is the key of a node and no node needs itself on
the way.
-/

namespace ArmaraOS.Lib

open Relation

section Waves

variable {N K : Type} (key : N → K) (needs : N → List K) (nodes : List N)

/-- The key of a node can be had if all that the node needs can be had. -/
inductive Obtainable : K → Prop where
  | of {n : N} : n ∈ nodes → (∀ k ∈ needs n, Obtainable k) → Obtainable (key n)

/-- A node with the first key needs the second one. -/
def Needs (a b : K) : Prop := ∃ n ∈ nodes, key n = a ∧ b ∈ needs n

variable {key needs nodes}

/-- **Progress.** While a key that can be had is open, the needs of an open node are met. -/
theorem exists_ready {isOpen isMet : K → Prop} (hall : ∀ n ∈ nodes, isOpen (key n) ∨ isMet (key n))
    {k : K} (hk : Obtainable key needs nodes k) (hopen : isOpen k) :
    ∃ n ∈ nodes, isOpen (key n) ∧ ∀ d ∈ needs n, isMet d := by
  induction hk with
  | @of n hn hneeds ih =>
      by_cases hwaits : ∃ d ∈ needs n, isOpen d
      · obtain ⟨d, hd, hopen'⟩ := hwaits
        exact ih d hd hopen'
      · refine ⟨n, hn, hopen, fun d hd => ?_⟩
        cases hneeds d hd with
        | of hm _ => exact (hall _ hm).resolve_left fun hopen' => hwaits ⟨_, hd, hopen'⟩

/-- With distinct keys, a key that can be had is one whose node can be done. -/
theorem Obtainable.of_key (hkeys : (nodes.map key).Nodup) {n : N} (hn : n ∈ nodes)
    (h : Obtainable key needs nodes (key n)) : ∀ k ∈ needs n, Obtainable key needs nodes k := by
  generalize hk : key n = k at h
  cases h with
  | of hm hneeds =>
      obtain rfl := List.inj_on_of_nodup_map hkeys hn hm hk
      exact hneeds

/-- **Everything can be had**, of nodes with distinct keys, exactly if every need is the key of a
node and no key needs itself on the way. -/
theorem forall_obtainable_iff (hkeys : (nodes.map key).Nodup) :
    (∀ n ∈ nodes, Obtainable key needs nodes (key n)) ↔
      (∀ n ∈ nodes, ∀ k ∈ needs n, k ∈ nodes.map key) ∧ Acyclic (Needs key needs nodes) := by
  constructor
  · intro h
    have hclosed : ∀ n ∈ nodes, ∀ k ∈ needs n, k ∈ nodes.map key := by
      intro n hn k hk
      cases Obtainable.of_key hkeys hn (h n hn) k hk with
      | of hm _ => exact List.mem_map_of_mem hm
    have hacc : ∀ k, Obtainable key needs nodes k →
        Acc (fun b a => Needs key needs nodes a b) k := by
      intro k hk
      induction hk with
      | @of n hn _ ih =>
          refine Acc.intro _ ?_
          rintro b ⟨m, hm, hkey, hb⟩
          obtain rfl := List.inj_on_of_nodup_map hkeys hm hn hkey
          exact ih b hb
    refine ⟨hclosed, fun a hcycle => ?_⟩
    obtain ⟨b, ⟨n, hn, rfl, -⟩, -⟩ := TransGen.head'_iff.mp hcycle
    exact not_transGen_of_acc (hacc _ (h n hn)) hcycle
  · rintro ⟨hclosed, hacyclic⟩
    have hacc : ∀ k, k ∈ nodes.map key → Obtainable key needs nodes k := by
      intro k
      have hk : Acc (fun b a => Needs key needs nodes a b) k :=
        (@acc_iff_no_cycle _ _ (nodes.map key)
          (fun a b ⟨n, hn, _, hb⟩ => hclosed n hn b hb) k).mpr fun b _ => hacyclic b
      induction hk with
      | intro k _ ih =>
          intro hmem
          obtain ⟨n, hn, rfl⟩ := List.mem_map.mp hmem
          exact .of hn fun d hd => ih d ⟨n, hn, rfl, hd⟩ (hclosed n hn d hd)
    exact fun n hn => hacc _ (List.mem_map_of_mem hn)

end Waves

end ArmaraOS.Lib
