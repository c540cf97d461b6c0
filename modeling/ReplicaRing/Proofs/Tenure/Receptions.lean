import Mathlib.Data.List.Perm.Basic
import ReplicaRing.Proofs.Tenure.Copies

/-!
# All names on their way in

Pushes and copies are receptions. No two receptions of one member bring the same name, so what one
of them does leaves the others as they are.
-/
namespace ReplicaRing.Tenure

variable {w w' : Stores} {P Q : String → Content → Prop} {m : Member} {name : String}

/-- A name on its way into the store of a member. -/
inductive Reception
  | push (p : Push)
  | copy (c : Copying)

variable {r r' : Reception} {rs rs' : List Reception} {pushes : List Push} {copies : List Copying}
  {p : Push} {c : Copying} {i : Nat}

/-- Who receives, and what. -/
def Reception.key : Reception → Member × String
  | push p => (p.target, p.put.storedName)
  | copy c => (c.order.target, c.order.storedName)

def receptions (pushes : List Push) (copies : List Copying) : List Reception :=
  pushes.map .push ++ copies.map .copy

/-- A reception brings what belongs to its name, or nothing. -/
def Reception.Fares (P : String → Content → Prop) (w : Stores) : Reception → Prop
  | push p => P p.put.storedName p.put.content ∧ ∃ received,
      (w.store p.target).Receives w.disk p.put.storedName p.inflow received ∧
        received ++ p.coming = p.put.content.1
  | copy c => Stores.Hears P w c.order.target c.order.storedName c.pull c.coming

/-- The stores are sound and will be, whatever comes of the receptions. -/
structure Brings (P : String → Content → Prop) (w : Stores) (rs : List Reception) : Prop where
  sound : w.Sound P
  distinct : (rs.map Reception.key).Nodup
  awaits : ∀ r ∈ rs, w.Awaits r.key.1 r.key.2
  fares : ∀ r ∈ rs, r.Fares P w

namespace Brings

theorem mono (h : Brings P w rs) (hmono : ∀ name content, P name content → Q name content) :
    Brings Q w rs where
  sound := h.sound.mono hmono
  distinct := h.distinct
  awaits := h.awaits
  fares r hr := by
    have hfares := h.fares r hr
    cases r with
    | push p => exact ⟨hmono _ _ hfares.1, hfares.2⟩
    | copy c => exact hfares.mono hmono

theorem perm (h : Brings P w rs) (hperm : rs.Perm rs') : Brings P w rs' where
  sound := h.sound
  distinct := (hperm.map _).nodup_iff.mp h.distinct
  awaits r hr := h.awaits r (hperm.mem_iff.mpr hr)
  fares r hr := h.fares r (hperm.mem_iff.mpr hr)

/-- Work on a name that no reception brings. -/
theorem works (h : Brings P w rs) (hworks : w.Works w' m name) (hsound : w'.Sound P)
    (haccepted : Store.accepts name = true) (hkey : (m, name) ∉ rs.map Reception.key) :
    Brings P w' rs := by
  have hne (r : Reception) (hr : r ∈ rs) : ¬ (r.key.1 = m ∧ r.key.2 = name) :=
    fun heq => hkey (List.mem_map.mpr ⟨r, hr, Prod.ext heq.1 heq.2⟩)
  refine ⟨hsound, h.distinct, fun r hr => hworks.awaits (hne r hr) (h.awaits r hr),
    fun r hr => ?_⟩
  have hfares := h.fares r hr
  cases r with
  | push p =>
    obtain ⟨hbelongs, received, hreceives, hbytes⟩ := hfares
    exact ⟨hbelongs, received, hworks.receives h.sound haccepted (hne _ hr) hreceives, hbytes⟩
  | copy c =>
    have hother : ¬ (c.order.target = m ∧ c.order.storedName = name) := hne _ hr
    exact hworks.hears h.sound haccepted hother hfares

theorem cons (h : Brings P w rs) (hkey : r.key ∉ rs.map Reception.key)
    (hawaits : w.Awaits r.key.1 r.key.2) (hfares : r.Fares P w) : Brings P w (r :: rs) where
  sound := h.sound
  distinct := List.nodup_cons.mpr ⟨hkey, h.distinct⟩
  awaits := List.forall_mem_cons.mpr ⟨hawaits, h.awaits⟩
  fares := List.forall_mem_cons.mpr ⟨hfares, h.fares⟩

theorem key_not_mem (h : Brings P w (r :: rs)) : r.key ∉ rs.map Reception.key :=
  (List.nodup_cons.mp h.distinct).1

/-- A reception ends. -/
theorem tail (h : Brings P w (r :: rs)) (hworks : w.Works w' r.key.1 r.key.2)
    (hsound : w'.Sound P) : Brings P w' rs :=
  works ⟨h.sound, (List.nodup_cons.mp h.distinct).2,
      fun r hr => h.awaits r (List.mem_cons_of_mem _ hr),
      fun r hr => h.fares r (List.mem_cons_of_mem _ hr)⟩
    hworks hsound (h.awaits r List.mem_cons_self).accepted h.key_not_mem

/-- A reception goes on. -/
theorem head (h : Brings P w (r :: rs)) (hkey : r'.key = r.key)
    (hworks : w.Works w' r.key.1 r.key.2) (hsound : w'.Sound P)
    (hawaits : w'.Awaits r.key.1 r.key.2) (hfares : r'.Fares P w') : Brings P w' (r' :: rs) :=
  (h.tail hworks hsound).cons (hkey ▸ h.key_not_mem) (hkey ▸ hawaits) hfares

/-- A name that is not on its way in is brought by no reception. -/
theorem free (h : Brings P w rs) (hfree : name ∉ (w.store m).receiving) :
    (m, name) ∉ rs.map Reception.key := by
  intro hkey
  obtain ⟨r, hr, heq⟩ := List.mem_map.mp hkey
  have hlisted := (h.awaits r hr).listed
  rw [heq] at hlisted
  exact hfree hlisted

end Brings

/-! ### Receptions by their places -/

theorem perm_push (h : pushes[i]? = some p) :
    (receptions pushes copies).Perm (.push p :: receptions (pushes.eraseIdx i) copies) := by
  obtain ⟨hi, rfl⟩ := List.getElem?_eq_some_iff.mp h
  exact ((List.getElem_cons_eraseIdx_perm hi).symm.map Reception.push).append_right _

theorem perm_set_push (h : pushes[i]? = some p) (now : Push) :
    (receptions (pushes.set i now) copies).Perm
      (.push now :: receptions (pushes.eraseIdx i) copies) := by
  obtain ⟨hi, rfl⟩ := List.getElem?_eq_some_iff.mp h
  exact ((List.set_perm_cons_eraseIdx hi now).map Reception.push).append_right _

theorem perm_append_push :
    (receptions (pushes ++ [p]) copies).Perm (.push p :: receptions pushes copies) := by
  simp only [receptions, List.map_append, List.append_assoc, List.map_cons, List.map_nil,
    List.singleton_append]
  exact List.perm_middle

theorem perm_copy (h : copies[i]? = some c) :
    (receptions pushes copies).Perm (.copy c :: receptions pushes (copies.eraseIdx i)) := by
  obtain ⟨hi, rfl⟩ := List.getElem?_eq_some_iff.mp h
  exact (((List.getElem_cons_eraseIdx_perm hi).symm.map Reception.copy).append_left _).trans
    List.perm_middle

theorem perm_set_copy (h : copies[i]? = some c) (now : Copying) :
    (receptions pushes (copies.set i now)).Perm
      (.copy now :: receptions pushes (copies.eraseIdx i)) := by
  obtain ⟨hi, rfl⟩ := List.getElem?_eq_some_iff.mp h
  exact (((List.set_perm_cons_eraseIdx hi now).map Reception.copy).append_left _).trans
    List.perm_middle

theorem perm_append_copy :
    (receptions pushes (copies ++ [c])).Perm (.copy c :: receptions pushes copies) := by
  simp only [receptions, List.map_append, ← List.append_assoc, List.map_cons, List.map_nil]
  exact List.perm_append_singleton _ _

end ReplicaRing.Tenure
