import ReplicaRing.Proofs.Store.Receptions
import ReplicaRing.Proofs.Tenure.Events
import ReplicaRing.Proofs.Wire.Frames

/-!
# One name in one store at a time

Whatever a store does for a name on its way in stays with the entries of that name: what other names
have, in this store or in another, and what has come of them, is as it was. `P` says what belongs to
a name; a store is sound as long as it has nothing else under the name.
-/
namespace ReplicaRing

open Disk

variable {w w' w'' : Stores} {P : String → Content → Prop} {m n : Member} {name other : String}
  {content bytes coming : Bytes} {inflow : Inflow} {s : Store} {d : Disk}

namespace Stores

/-- Every store keeps to its folder and has under a name what belongs to the name. -/
structure Sound (w : Stores) (P : String → Content → Prop) : Prop where
  apart : ∀ m n, (w.store m).root <+: (w.store n).root → m = n
  tree : w.disk.IsTree
  cancelled : ∀ m, (w.store m).cancelled = ∅
  serves : ∀ m name, name ∈ (w.store m).files →
    ∃ content, P name content ∧ (w.store m).Serves w.disk name content.1

/-- A member has worked on a name. -/
structure Works (w w' : Stores) (m : Member) (name : String) : Prop where
  others : ∀ n, n ≠ m → w'.store n = w.store n
  root : (w'.store m).root = (w.store m).root
  touches : w.disk.Touches w'.disk [(w.store m).transit name, (w.store m).place name]
  files : ∀ other, other ≠ name → (other ∈ (w'.store m).files ↔ other ∈ (w.store m).files)
  grows : name ∈ (w.store m).files → name ∈ (w'.store m).files
  receiving : ∀ other, other ≠ name →
    (other ∈ (w'.store m).receiving ↔ other ∈ (w.store m).receiving)
  cancelled : (w.store m).cancelled = ∅ → (w'.store m).cancelled = ∅

namespace Works

theorem roots (h : w.Works w' m name) (n : Member) : (w'.store n).root = (w.store n).root := by
  by_cases hn : n = m
  · rw [hn, h.root]
  · rw [h.others n hn]

theorem transit (h : w.Works w' m name) (n : Member) (other : String) :
    (w'.store n).transit other = (w.store n).transit other := by
  rw [Store.transit, Store.place, h.roots n]
  rfl

theorem place (h : w.Works w' m name) (n : Member) (other : String) :
    (w'.store n).place other = (w.store n).place other := by
  rw [Store.place, h.roots n]
  rfl

theorem refl (w : Stores) (m : Member) (name : String) : w.Works w m name :=
  ⟨fun _ _ => rfl, rfl, .refl _ _, fun _ _ => Iff.rfl, id, fun _ _ => Iff.rfl, id⟩

theorem trans (h : w.Works w' m name) (h' : w'.Works w'' m name) : w.Works w'' m name where
  others n hn := (h'.others n hn).trans (h.others n hn)
  root := h'.root.trans h.root
  touches := by
    have htouch := h'.touches
    rw [h.transit, h.place] at htouch
    exact h.touches.trans htouch
  files other hne := (h'.files other hne).trans (h.files other hne)
  grows := h'.grows ∘ h.grows
  receiving other hne := (h'.receiving other hne).trans (h.receiving other hne)
  cancelled := h'.cancelled ∘ h.cancelled

theorem mem_files (h : w.Works w' m name) (hmem : other ∈ (w.store n).files) :
    other ∈ (w'.store n).files := by
  by_cases hn : n = m
  · subst hn
    by_cases hother : other = name
    · subst hother
      exact h.grows hmem
    · exact (h.files other hother).mpr hmem
  · rwa [h.others n hn]

end Works

/-! ### What a store does -/

theorem act_eq {α : Type} {f : Store → Disk → Store × Disk × α} {x : α}
    (h : f (w.store m) w.disk = (s, d, x)) :
    w.act m f = (x, ⟨d, fun n => if n = m then s else w.store n⟩) := by
  unfold act
  rw [h]

theorem update_self : (⟨w.disk, fun n => if n = m then w.store m else w.store n⟩ : Stores) = w := by
  have hstore : (fun n => if n = m then w.store m else w.store n) = w.store := by
    funext n
    split
    · subst_vars; rfl
    · rfl
  rw [hstore]

/-- A step of one store that keeps to a name. -/
theorem works_update (hroot : s.root = (w.store m).root)
    (htouch : w.disk.Touches d [(w.store m).transit name, (w.store m).place name])
    (hfiles : ∀ other, other ≠ name → (other ∈ s.files ↔ other ∈ (w.store m).files))
    (hgrows : name ∈ (w.store m).files → name ∈ s.files)
    (hreceiving : ∀ other, other ≠ name → (other ∈ s.receiving ↔ other ∈ (w.store m).receiving))
    (hcancelled : (w.store m).cancelled = ∅ → s.cancelled = ∅) :
    w.Works ⟨d, fun n => if n = m then s else w.store n⟩ m name := by
  refine ⟨fun n hn => if_neg hn, ?_, htouch, ?_, ?_, ?_, ?_⟩ <;> simp only [↓reduceIte]
  · exact hroot
  · exact hfiles
  · exact hgrows
  · exact hreceiving
  · exact hcancelled

theorem works_disk
    (htouch : w.disk.Touches d [(w.store m).transit name, (w.store m).place name]) :
    w.Works { w with disk := d } m name :=
  ⟨fun _ _ => rfl, rfl, htouch, fun _ _ => Iff.rfl, id, fun _ _ => Iff.rfl, id⟩

/-! ### Stores keep to their folders -/

namespace Sound

theorem mono {Q : String → Content → Prop} (h : w.Sound P)
    (hmono : ∀ name content, P name content → Q name content) : w.Sound Q :=
  ⟨h.apart, h.tree, h.cancelled, fun m name hmem =>
    let ⟨content, hcontent, hserves⟩ := h.serves m name hmem
    ⟨content, hmono _ _ hcontent, hserves⟩⟩

theorem place_prefix_iff (h : w.Sound P) :
    (w.store m).place name <+: (w.store n).place other ↔ m = n ∧ name = other := by
  constructor
  · intro hprefix
    obtain heq | hprefix := List.prefix_concat_iff.mp hprefix
    · obtain ⟨hroot, hname⟩ := List.append_inj' heq rfl
      exact ⟨h.apart m n (hroot ▸ List.prefix_refl _), List.singleton_inj.mp hname⟩
    · have hmn := h.apart m n ((List.prefix_append _ _).trans hprefix)
      subst hmn
      have hlength := hprefix.length_le
      simp only [Store.place, List.length_append, List.length_singleton] at hlength
      omega
  · rintro ⟨rfl, rfl⟩
    exact List.prefix_refl _

/-- The entries of one name are not on the way to what is collected for another. -/
theorem not_prefix_transit (h : w.Sound P) (haccepted : Store.accepts name = true)
    (hne : ¬ (n = m ∧ other = name)) :
    ∀ k ∈ [(w.store m).transit name, (w.store m).place name],
      ¬ k <+: (w.store n).transit other := by
  simp only [List.mem_cons, List.not_mem_nil, or_false, forall_eq_or_imp, forall_eq,
    Store.transit, h.place_prefix_iff]
  constructor
  · rintro ⟨hm, hname⟩
    exact hne ⟨hm.symm, (PartialName.ofName_injective hname).symm⟩
  · rintro ⟨-, hname⟩
    exact Store.ofName_ne_of_accepts haccepted hname.symm

theorem place_not_mem (h : w.Sound P) (haccepted : Store.accepts other = true)
    (hne : ¬ (n = m ∧ other = name)) :
    (w.store n).place other ∉ [(w.store m).transit name, (w.store m).place name] := by
  have hplace (a : String) : (w.store n).place other = (w.store m).place a → n = m ∧ other = a :=
    fun heq => h.place_prefix_iff.mp (heq ▸ List.prefix_refl _)
  simp only [List.mem_cons, List.not_mem_nil, or_false, not_or, Store.transit]
  refine ⟨fun heq => ?_, fun heq => hne (hplace name heq)⟩
  exact Store.ofName_ne_of_accepts haccepted (hplace _ heq).2.symm

end Sound

/-- What has come of another name stays. -/
theorem Works.receives (h : w.Works w' m name) (hsound : w.Sound P)
    (haccepted : Store.accepts name = true) (hne : ¬ (n = m ∧ other = name))
    (hreceives : (w.store n).Receives w.disk other inflow content) :
    (w'.store n).Receives w'.disk other inflow content := by
  refine hreceives.touched h.touches (hsound.not_prefix_transit haccepted hne) (h.roots n) ?_
  by_cases hn : n = m
  · subst hn
    exact (h.receiving other fun heq => hne ⟨rfl, heq⟩).mpr hreceives.listed
  · rw [h.others n hn]
    exact hreceives.listed

/-- Work on a name leaves the stores sound, if the store then has under the name what belongs to
it. -/
theorem Works.sound (h : w.Works w' m name) (hsound : w.Sound P)
    (hname : name ∈ (w'.store m).files →
      ∃ content, P name content ∧ (w'.store m).Serves w'.disk name content.1) : w'.Sound P where
  apart k n hroot := by
    rw [h.roots, h.roots] at hroot
    exact hsound.apart k n hroot
  tree := h.touches.tree hsound.tree
  cancelled n := by
    by_cases hn : n = m
    · rw [hn]
      exact h.cancelled (hsound.cancelled m)
    · rw [h.others n hn]
      exact hsound.cancelled n
  serves n other hmem := by
    by_cases hother : n = m ∧ other = name
    · obtain ⟨rfl, rfl⟩ := hother
      exact hname hmem
    · have hold : other ∈ (w.store n).files := by
        by_cases hn : n = m
        · subst hn
          exact (h.files other fun heq => hother ⟨rfl, heq⟩).mp hmem
        · rwa [h.others n hn] at hmem
      obtain ⟨found, hfound, hserves⟩ := hsound.serves n other hold
      exact ⟨found, hfound, hserves.touched h.touches
        (hsound.place_not_mem hserves.accepted hother) (h.roots n) hmem⟩

end Stores

end ReplicaRing
