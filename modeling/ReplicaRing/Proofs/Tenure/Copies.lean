import ReplicaRing.Proofs.Tenure.Works

/-!
# A name on its way into a store

A put hears the bytes of its client, a copy hears a holder. What a holder says is an acknowledgment
and, behind it, what belongs to the name; it may stop anywhere. However the bytes are cut, the store
publishes the name only when it has what belongs to it.
-/
namespace ReplicaRing

open Disk

variable {w w' : Stores} {P Q : String → Content → Prop} {m n : Member} {name other : String}
  {content : Content} {coming bytes said : Bytes} {inflow : Inflow} {d : Disk} {pull : Pull}
  {ack : FileMessage}

/-! ### What stores say -/

/-- An acknowledgment, and if that is an `Ok`, what belongs to the name, behind its size. -/
structure Offers (P : String → Content → Prop) (name : String) (ack : FileMessage) (body : Bytes) :
    Prop where
  fits : Wire.Frame.Fits ack
  honest : ack.isOk = true → ∃ content : Content, P name content ∧
    ack.size = some (UInt64.ofNat content.1.length) ∧ body = content.1

theorem fits_fail : Wire.Frame.Fits FileMessage.fail := by
  decide

theorem fits_ok_size (size : UInt64) :
    Wire.Frame.Fits { FileMessage.ok with size := some size } := by
  have hlength : (Wire.encode { FileMessage.ok with size := some size }).length =
      (Wire.encode FileMessage.ok).length + 8 := by
    change (_ ++ Wire.encode (some size)).length = (_ ++ Wire.encode none).length + 8
    simp only [List.length_append, Wire.length_encode_some, Wire.length_encode_none,
      Wire.length_encode_word64, Nat.add_assoc]
  rw [Wire.Frame.Fits, hlength]
  decide

namespace Stores

/-- What a sound store answers to a request for a name. -/
theorem Sound.offers (h : w.Sound P) (m : Member) (name : String) :
    ∃ ack body, Offers P name ack body ∧
      ((w.store m).get w.disk name).bytes = Wire.Frame.bytes ack ++ body := by
  by_cases hstored : name ∈ (w.store m).files
  · obtain ⟨content, hcontent, hserves⟩ := h.serves m name hstored
    refine ⟨_, content.1, ⟨fits_ok_size _, fun _ => ⟨content, hcontent, rfl, rfl⟩⟩, ?_⟩
    rw [hserves.get, Answer.bytes, Option.map_some, Option.getD_some]
  · refine ⟨.fail, [], ⟨fits_fail, nofun⟩, ?_⟩
    have hcontains : (w.store m).contains name = false := by
      rwa [Std.ExtTreeSet.mem_iff_contains, Bool.not_eq_true] at hstored
    have hget : (w.store m).get w.disk name = { reply := some .fail } := by
      unfold Store.get
      rw [hcontains]
      rfl
    rw [hget]
    rfl

/-! ### Receptions -/

/-- A name is on its way into a store. -/
structure Awaits (w : Stores) (m : Member) (name : String) : Prop where
  listed : name ∈ (w.store m).receiving
  accepted : Store.accepts name = true
  unstored : name ∉ (w.store m).files

theorem Works.awaits (h : w.Works w' m name) (hne : ¬ (n = m ∧ other = name))
    (hawaits : w.Awaits n other) : w'.Awaits n other := by
  by_cases hn : n = m
  · subst hn
    have hother : other ≠ name := fun heq => hne ⟨rfl, heq⟩
    exact ⟨(h.receiving other hother).mpr hawaits.listed, hawaits.accepted,
      fun hmem => hawaits.unstored ((h.files other hother).mp hmem)⟩
  · obtain ⟨hlisted, haccepted, hunstored⟩ := hawaits
    rw [← h.others n hn] at hlisted hunstored
    exact ⟨hlisted, haccepted, hunstored⟩

/-- Only the disk changes, and the store still awaits the name. -/
structure Advances (w : Stores) (P : String → Content → Prop) (d : Disk) (m : Member)
    (name : String) : Prop where
  works : w.Works { w with disk := d } m name
  sound : Sound { w with disk := d } P
  awaits : Awaits { w with disk := d } m name

theorem Awaits.advances (hawaits : w.Awaits m name) (hsound : w.Sound P)
    (htouch : w.disk.Touches d [(w.store m).transit name, (w.store m).place name]) :
    w.Advances P d m name where
  works := works_disk htouch
  sound := (works_disk htouch).sound hsound fun hmem => absurd hmem hawaits.unstored
  awaits := ⟨hawaits.listed, hawaits.accepted, hawaits.unstored⟩

theorem Awaits.stays (hawaits : w.Awaits m name) (hsound : w.Sound P) :
    w.Advances P w.disk m name :=
  hawaits.advances hsound (.refl _ _)

/-- A store takes note of a name on its way in. -/
theorem works_beginReceiving (hsound : w.Sound P)
    (htouch : w.disk.Touches d [(w.store m).transit name, (w.store m).place name])
    (haccepted : Store.accepts name = true) (hunstored : name ∉ (w.store m).files) :
    let w' : Stores := ⟨d, fun n => if n = m then (w.store m).beginReceiving name else w.store n⟩
    w.Works w' m name ∧ w'.Sound P ∧ w'.Awaits m name := by
  intro w'
  have hself : w'.store m = (w.store m).beginReceiving name := if_pos rfl
  have hworks : w.Works w' m name := by
    refine works_update rfl htouch (fun _ _ => Iff.rfl) id (fun other hne => ?_) fun hnone => ?_
    · rw [Store.mem_receiving_beginReceiving, or_iff_right (Ne.symm hne)]
    · rw [Store.beginReceiving, hnone]
      rfl
  refine ⟨hworks, hworks.sound hsound fun hmem => ?_, ?_, haccepted, ?_⟩
  · rw [hself] at hmem
    exact absurd hmem hunstored
  · rw [hself]
    exact Store.mem_receiving_beginReceiving.mpr (.inl rfl)
  · rw [hself]
    exact hunstored

/-- A store is done with a name, and serves it only if it has what belongs to it. -/
theorem works_endReceiving (hsound : w.Sound P)
    (htouch : w.disk.Touches d [(w.store m).transit name, (w.store m).place name])
    (hunstored : name ∉ (w.store m).files) :
    w.Works ⟨d, fun n => if n = m then (w.store m).endReceiving name else w.store n⟩ m name ∧
      Sound ⟨d, fun n => if n = m then (w.store m).endReceiving name else w.store n⟩ P := by
  have hworks : w.Works ⟨d, fun n => if n = m then (w.store m).endReceiving name else w.store n⟩
      m name := by
    refine works_update rfl htouch (fun _ _ => Iff.rfl) id (fun other hne => ?_) fun hnone => ?_
    · rw [Store.mem_receiving_endReceiving, and_iff_right hne.symm]
    · rw [Store.endReceiving, hnone]
      rfl
  refine ⟨hworks, hworks.sound hsound fun hmem => ?_⟩
  simp only [↓reduceIte] at hmem
  exact absurd hmem hunstored

/-- A store publishes a name of which it has all, and is done with it. -/
theorem works_publish (hsound : w.Sound P)
    (htouch : w.disk.Touches d [(w.store m).transit name, (w.store m).place name])
    (haccepted : Store.accepts name = true) (hbelongs : P name content)
    (hfound : d.lookup ((w.store m).path name) = .ok (.file content.1)) :
    let s := { w.store m with files := (w.store m).files.insert name }.endReceiving name
    w.Works ⟨d, fun n => if n = m then s else w.store n⟩ m name ∧
      Sound ⟨d, fun n => if n = m then s else w.store n⟩ P ∧ name ∈ s.files := by
  intro s
  have hstored : name ∈ s.files := Std.ExtTreeSet.mem_insert_self
  have hworks : w.Works ⟨d, fun n => if n = m then s else w.store n⟩ m name := by
    refine works_update rfl htouch (fun other hne => ?_) (fun _ => hstored) (fun other hne => ?_)
      fun hnone => ?_
    · change other ∈ (w.store m).files.insert name ↔ _
      exact mem_insert_of_ne hne
    · rw [Store.mem_receiving_endReceiving, and_iff_right hne.symm]
    · change (w.store m).cancelled.erase name = ∅
      rw [hnone]
      rfl
  refine ⟨hworks, hworks.sound hsound fun _ => ⟨content, hbelongs, ?_⟩, hstored⟩
  simp only [↓reduceIte]
  exact ⟨hstored, haccepted, hfound⟩

/-! ### Puts -/

/-- A put is refused, or it is the only one that brings the name. -/
theorem Sound.beginPut (h : w.Sound P) (m : Member) (name : String) :
    w.act m (·.beginPut · name) = (.refused, w) ∨
      name ∉ (w.store m).receiving ∧ Store.accepts name = true ∧
        ∃ admission w', w.act m (·.beginPut · name) = (admission, w') ∧ w.Works w' m name ∧
          w'.Sound P ∧ admission ≠ .refused ∧ ∀ inflow, admission = .receiving inflow →
            w'.Awaits m name ∧ (w'.store m).Receives w'.disk name inflow [] := by
  obtain hrefused | ⟨⟨haccepted, hunstored, hfree⟩, hbegun⟩ :=
    Store.beginPut_cases (w.store m) w.disk name
  · left
    rw [act_eq (f := (·.beginPut · name)) hrefused, update_self]
  · refine .inr ⟨hfree, haccepted, ?_⟩
    obtain ⟨d, fault, heq, htouch⟩ | ⟨d, inflow, heq, hreceives, htouch⟩ := hbegun
    · obtain ⟨hworks, hsound⟩ := works_endReceiving h (htouch.mono (by simp)) hunstored
      exact ⟨_, _, act_eq (f := (·.beginPut · name)) heq, hworks, hsound, nofun, nofun⟩
    · obtain ⟨hworks, hsound, hawaits⟩ :=
        works_beginReceiving h (htouch.mono (by simp)) haccepted hunstored
      refine ⟨_, _, act_eq (f := (·.beginPut · name)) heq, hworks, hsound, nofun,
        fun found hfound => ⟨hawaits, ?_⟩⟩
      cases hfound
      simp only [↓reduceIte]
      exact hreceives

/-- What has come of a name is all of it, if the store takes it. -/
theorem eq_of_announces {received : Bytes} (hbytes : received ++ coming = content.1)
    (hlength : Announces (some (UInt64.ofNat content.1.length)) received.length) :
    received = content.1 := by
  have hall := hlength _ rfl
  rw [UInt64.toNat_ofNat_of_lt' content.2] at hall
  exact List.IsPrefix.eq_of_length ⟨coming, hbytes⟩ hall.symm

/-- A put ends with what belongs to the name, or with nothing. -/
theorem Awaits.finishPut {received : Bytes} (hawaits : w.Awaits m name) (h : w.Sound P)
    (hreceives : (w.store m).Receives w.disk name inflow received) (hbelongs : P name content)
    (hbytes : received ++ coming = content.1) :
    ∃ answer w',
      w.act m (·.finishPut · name (some (UInt64.ofNat content.1.length)) inflow) = (answer, w') ∧
        w.Works w' m name ∧ w'.Sound P ∧
        (answer.reply.any (·.isOk) = true → name ∈ (w'.store m).files) := by
  have hkept : name ∉ (w.store m).cancelled := by
    rw [h.cancelled]
    exact Std.ExtTreeSet.not_mem_empty
  obtain ⟨d, heq, hlength, htouch, hfound⟩ | ⟨d, fault, heq, htouch⟩ :=
    hreceives.finishPut_cases h.tree hkept (some (UInt64.ofNat content.1.length))
  · cases eq_of_announces hbytes hlength
    obtain ⟨hworks, hsound, hstored⟩ :=
      works_publish h htouch hawaits.accepted hbelongs hfound
    refine ⟨_, _, act_eq (f := fun s d => s.finishPut d name _ inflow) heq, hworks, hsound,
      fun _ => ?_⟩
    simp only [↓reduceIte]
    exact hstored
  · obtain ⟨hworks, hsound⟩ := works_endReceiving h (htouch.mono (by simp)) hawaits.unstored
    exact ⟨_, _, act_eq (f := fun s d => s.finishPut d name _ inflow) heq, hworks, hsound, nofun⟩

/-! ### Copies -/

/-- What a copy makes of what it hears, and what is still to come. -/
inductive Hears (P : String → Content → Prop) (w : Stores) (m : Member) (name : String) :
    Pull → Bytes → Prop
  | greeting {said coming body : Bytes} {ack : FileMessage} (offers : Offers P name ack body)
      (short : said.length < (Wire.Frame.bytes ack).length)
      (bytes : said ++ coming = Wire.Frame.bytes ack ++ body) :
      Hears P w m name (.greeting said) coming
  | receiving {received coming : Bytes} {ack : FileMessage} {inflow : Inflow} {content : Content}
      (belongs : P name content)
      (announced : ack.size = some (UInt64.ofNat content.1.length))
      (receives : (w.store m).Receives w.disk name inflow received)
      (bytes : received ++ coming = content.1) : Hears P w m name (.receiving ack inflow) coming
  | refused {coming : Bytes} {ack : FileMessage} (refused : ack.isOk = false) :
      Hears P w m name (.ended (.ok ack)) coming
  | failed {coming : Bytes} (fault : ExchangeFault) :
      Hears P w m name (.ended (.error fault)) coming

theorem Hears.mono (h : Hears P w m name pull coming)
    (hmono : ∀ name content, P name content → Q name content) : Hears Q w m name pull coming := by
  cases h with
  | greeting offers short bytes =>
    exact .greeting ⟨offers.fits, fun hok =>
      let ⟨content, hcontent, hrest⟩ := offers.honest hok
      ⟨content, hmono _ _ hcontent, hrest⟩⟩ short bytes
  | receiving belongs announced receives bytes =>
    exact .receiving (hmono _ _ belongs) announced receives bytes
  | refused refused => exact .refused refused
  | failed fault => exact .failed fault

/-- Work on another name is not heard. -/
theorem Works.hears (h : w.Works w' m name) (hsound : w.Sound P)
    (haccepted : Store.accepts name = true) (hne : ¬ (n = m ∧ other = name))
    (hears : Hears P w n other pull coming) : Hears P w' n other pull coming := by
  cases hears with
  | greeting offers short bytes => exact .greeting offers short bytes
  | receiving belongs announced receives bytes =>
    exact .receiving belongs announced (h.receives hsound haccepted hne receives) bytes
  | refused refused => exact .refused refused
  | failed fault => exact .failed fault

/-- A copy that has heard nothing yet hears a store. -/
theorem Sound.hears_start (h : w.Sound P) (m holder : Member) (name : String) :
    Hears P w m name .start ((w.store holder).get w.disk name).bytes := by
  obtain ⟨ack, body, hoffers, hbytes⟩ := h.offers holder name
  refine .greeting hoffers ?_ hbytes
  rw [Wire.Frame.length_bytes hoffers.fits, List.length_nil]
  omega

/-- Bytes of the file come. -/
theorem Awaits.collect {received rest : Bytes} (hawaits : w.Awaits m name) (hsound : w.Sound P)
    (hreceives : (w.store m).Receives w.disk name inflow received) (hbelongs : P name content)
    (hannounced : ack.size = some (UInt64.ofNat content.1.length))
    (hbytes : received ++ (bytes ++ rest) = content.1) :
    w.Advances P (Transfer.collect w.disk inflow bytes).1 m name ∧
      Hears P { w with disk := (Transfer.collect w.disk inflow bytes).1 } m name
        (.receiving ack (Transfer.collect w.disk inflow bytes).2) rest := by
  obtain ⟨hmore, htouch⟩ := hreceives.collect bytes
  exact ⟨hawaits.advances hsound (htouch.mono (by simp)),
    .receiving hbelongs hannounced hmore (by rw [List.append_assoc, hbytes])⟩

/-- The acknowledgment is complete. -/
theorem Awaits.acknowledge {rest body : Bytes} (hawaits : w.Awaits m name) (hsound : w.Sound P)
    (hoffers : Offers P name ack body) (hbytes : bytes ++ rest = body) :
    ∃ d pull, Pull.acknowledge w.disk ((w.store m).path name) ack bytes = (d, pull) ∧
      w.Advances P d m name ∧ Hears P { w with disk := d } m name pull rest := by
  unfold Pull.acknowledge
  cases hok : ack.isOk with
  | false => exact ⟨w.disk, _, rfl, hawaits.stays hsound, .refused hok⟩
  | true =>
    rw [if_pos rfl]
    obtain ⟨content, hbelongs, hannounced, rfl⟩ := hoffers.honest hok
    cases hs : Transfer.start w.disk ((w.store m).path name) with
    | mk d result =>
      cases result with
      | error fault =>
        cases Transfer.start_error hs
        exact ⟨w.disk, _, rfl, hawaits.stays hsound, .failed _⟩
      | ok inflow =>
        obtain ⟨hreceives, htouch⟩ :=
          Store.receives_start hawaits.accepted hs hawaits.listed rfl
        have hbegun := hawaits.advances hsound (htouch.mono (by simp))
        obtain ⟨hmore, hears⟩ :=
          hbegun.awaits.collect hbegun.sound hreceives hbelongs hannounced hbytes
        exact ⟨_, _, rfl, ⟨hbegun.works.trans hmore.works, hmore.sound, hmore.awaits⟩, hears⟩

/-- A copy hears some of what is still to come. -/
theorem Awaits.hear {rest : Bytes} (hawaits : w.Awaits m name) (hsound : w.Sound P)
    (hears : Hears P w m name pull (bytes ++ rest)) :
    ∃ d pull', pull.hear w.disk ((w.store m).path name) bytes = (d, pull') ∧
      w.Advances P d m name ∧ Hears P { w with disk := d } m name pull' rest := by
  cases hears with
  | @greeting said _ body ack offers short hbytes =>
    rw [← List.append_assoc] at hbytes
    have hheard : said ++ bytes <+: Wire.Frame.bytes ack ++ body := ⟨rest, hbytes⟩
    by_cases hshort : (said ++ bytes).length < (Wire.Frame.bytes ack).length
    · -- The frame is still not complete.
      have hprefix : said ++ bytes <+: Wire.Frame.bytes ack :=
        List.prefix_of_prefix_length_le hheard (List.prefix_append _ body) hshort.le
      have hhear : Pull.hear w.disk ((w.store m).path name) bytes (.greeting said) =
          (w.disk, .greeting (said ++ bytes)) := by
        unfold Pull.hear
        obtain hcut | hcut := Wire.Frame.cut_prefix offers.fits hprefix hshort <;>
        simp only [hcut]
      exact ⟨_, _, hhear, hawaits.stays hsound, .greeting offers hshort hbytes⟩
    · obtain ⟨front, hfront⟩ : Wire.Frame.bytes ack <+: said ++ bytes :=
        List.prefix_of_prefix_length_le (List.prefix_append _ body) hheard (Nat.le_of_not_lt hshort)
      have hhear : Pull.hear w.disk ((w.store m).path name) bytes (.greeting said) =
          Pull.acknowledge w.disk ((w.store m).path name) ack front := by
        unfold Pull.hear
        simp only [← hfront, Wire.Frame.cut_bytes offers.fits, Wire.Frame.decode_encode offers.fits]
      rw [← hfront, List.append_assoc] at hbytes
      rw [hhear]
      exact hawaits.acknowledge hsound offers (List.append_cancel_left hbytes)
  | receiving belongs announced receives hbytes =>
    exact ⟨_, _, rfl, hawaits.collect hsound receives belongs announced hbytes⟩
  | refused refused => exact ⟨_, _, rfl, hawaits.stays hsound, .refused refused⟩
  | failed fault => exact ⟨_, _, rfl, hawaits.stays hsound, .failed fault⟩

/-- When a copy says that it has the file, the file is in its place. -/
def Pulled (P : String → Content → Prop) (w : Stores) (m : Member) (name : String)
    (pulled : Except ExchangeFault FileMessage) : Prop :=
  ∀ ack, pulled = .ok ack → ack.isOk = true → ∃ content : Content, P name content ∧
    w.disk.lookup ((w.store m).path name) = .ok (.file content.1)

theorem pulled_error (fault : ExchangeFault) : Pulled P w m name (.error fault) := nofun

theorem pulled_refusal (h : ack.isOk = false) : Pulled P w m name (.ok ack) := by
  intro found hfound hok
  cases hfound
  rw [h] at hok
  cases hok

/-- A holder has said all that it will say. -/
theorem Awaits.finish (hawaits : w.Awaits m name) (hsound : w.Sound P)
    (hears : Hears P w m name pull coming) (closed : Bool) :
    ∃ d pulled, pull.finish w.disk ((w.store m).path name) closed = (d, pulled) ∧
      w.Advances P d m name ∧ Pulled P { w with disk := d } m name pulled := by
  cases hears with
  | @greeting said _ body ack offers short hbytes =>
    have hprefix : said <+: Wire.Frame.bytes ack :=
      List.prefix_of_prefix_length_le ⟨coming, hbytes⟩ (List.prefix_append _ body) short.le
    obtain ⟨fault, hfault⟩ : ∃ fault,
        Heard.reply (α := FileMessage) ⟨said, closed⟩ .awaitingAcknowledgment = .error fault := by
      unfold Heard.reply Heard.frame
      obtain hcut | hcut := Wire.Frame.cut_prefix offers.fits hprefix short <;>
      · rw [hcut]
        exact ⟨_, rfl⟩
    exact ⟨_, _, congrArg (w.disk, ·) hfault, hawaits.stays hsound, pulled_error fault⟩
  | @receiving received _ ack inflow content belongs announced receives hbytes =>
    unfold Pull.finish
    cases closed with
    | false =>
      exact ⟨_, _, rfl, hawaits.advances hsound
        ((touches_close receives.collects.opened).mono (by simp)), pulled_error _⟩
    | true =>
      simp only [↓reduceIte, announced]
      cases hf : Transfer.finish w.disk ((w.store m).path name)
          (some (UInt64.ofNat content.1.length)) inflow with
      | mk d result =>
        cases result with
        | error fault =>
          exact ⟨_, _, rfl, hawaits.advances hsound ((receives.finish_error hf).mono (by simp)),
            pulled_error _⟩
        | ok count =>
          obtain ⟨-, hlength, htouch, hfound⟩ := receives.finish_ok hsound.tree hf
          cases eq_of_announces hbytes hlength
          exact ⟨_, _, rfl, hawaits.advances hsound htouch, fun _ _ _ => ⟨content, belongs, hfound⟩⟩
  | refused refused => exact ⟨_, _, rfl, hawaits.stays hsound, pulled_refusal refused⟩
  | failed fault => exact ⟨_, _, rfl, hawaits.stays hsound, pulled_error fault⟩

/-! ### Asking holder after holder -/

variable {view : Tenure.View} {holders : List Member}
  {pulled : Except ExchangeFault FileMessage} {outcome : Store.CopyProgress × Stores × Bytes}

/-- A copy has gone on as far as it can without hearing more. -/
structure Stands (P : String → Content → Prop) (w : Stores) (m : Member) (name : String)
    (outcome : Store.CopyProgress × Stores × Bytes) : Prop where
  works : w.Works outcome.2.1 m name
  sound : outcome.2.1.Sound P
  answered : ∀ kind, outcome.1 = .answered kind → kind = .ok ∨ kind = .fileExists →
    name ∈ (outcome.2.1.store m).files
  waiting : ∀ others, outcome.1 = .waiting others →
    outcome.2.1.Awaits m name ∧ Hears P outcome.2.1 m name .start outcome.2.2

theorem Works.stands (h : w.Works w' m name) (hstands : Stands P w' m name outcome) :
    Stands P w m name outcome :=
  ⟨h.trans hstands.works, hstands.sound, hstands.answered, hstands.waiting⟩

/-- A copy that gets the file from nobody. -/
theorem Awaits.stands_fail (hawaits : w.Awaits m name) (hsound : w.Sound P) (coming : Bytes) :
    Stands P w m name ((Store.copyFrom (Tenure.port m name view) name []).run (w, coming)) := by
  obtain ⟨hworks, hsound'⟩ := works_endReceiving hsound (.refl _ _) hawaits.unstored
  refine ⟨hworks, hsound', fun kind hkind hstored => ?_, nofun⟩
  cases hkind
  obtain hstored | hstored := hstored <;> cases hstored

theorem run_act {α : Type} (f : Store → Disk → Store × Disk × α) :
    ((Tenure.port m name view).act f).run (w, coming) = ((w.act m f).1, (w.act m f).2, coming) :=
  rfl

theorem run_hearHolder (others : StateM (Stores × Bytes) Store.CopyProgress) :
    (Store.hearHolder (Tenure.port m name view) name pulled others).run (w, coming) =
      match w.act m (·.judgePull · name pulled) with
      | (none, w) => others.run (w, coming)
      | (some kind, w) =>
        (.answered kind, (w.act m fun s d => (s.endReceiving name, d, ())).2, coming) := by
  unfold Store.hearHolder
  rw [StateT.run_bind, run_act]
  cases w.act m (·.judgePull · name pulled) with
  | mk judged w =>
    cases judged with
    | none => rfl
    | some kind => rfl

/-- What a copy pulled from a holder ends it, or it goes on with the others. -/
theorem Awaits.stands_hearHolder {others : StateM (Stores × Bytes) Store.CopyProgress}
    (hawaits : w.Awaits m name) (hsound : w.Sound P) (hpulled : Pulled P w m name pulled)
    (hothers : Stands P w m name (others.run (w, coming))) :
    Stands P w m name
      ((Store.hearHolder (Tenure.port m name view) name pulled others).run (w, coming)) := by
  have hgoOn (hjudge : (w.store m).judgePull w.disk name pulled = (w.store m, w.disk, none)) :
      w.act m (·.judgePull · name pulled) = (none, w) := by
    rw [act_eq (f := (·.judgePull · name pulled)) hjudge, update_self]
  rw [run_hearHolder]
  cases pulled with
  | error fault => rwa [hgoOn rfl]
  | ok ack =>
    cases hok : ack.isOk with
    | false =>
      rwa [hgoOn]
      unfold Store.judgePull
      simp only [hok, Bool.false_eq_true, ↓reduceIte]
    | true =>
      obtain ⟨content, hbelongs, hfound⟩ := hpulled ack rfl hok
      have hkept : name ∉ (w.store m).cancelled := by
        rw [hsound.cancelled]
        exact Std.ExtTreeSet.not_mem_empty
      have hjudge : (w.store m).judgePull w.disk name (.ok ack) =
          ({ w.store m with files := (w.store m).files.insert name }, w.disk, some .ok) := by
        unfold Store.judgePull
        simp only [hok, ↓reduceIte, Store.publish_of_kept hkept]
      obtain ⟨hworks, hsound', hstored⟩ :=
        works_publish hsound (.refl w.disk _) hawaits.accepted hbelongs hfound
      have hended : (Stores.act ⟨w.disk, fun n =>
            if n = m then { w.store m with files := (w.store m).files.insert name } else w.store n⟩
          m fun s d => (s.endReceiving name, d, ())).2 = ⟨w.disk, fun n => if n = m then
            { w.store m with files := (w.store m).files.insert name }.endReceiving name
          else w.store n⟩ := by
        simp only [act, ↓reduceIte, Stores.mk.injEq, true_and]
        funext n
        split <;> rfl
      rw [act_eq (f := (·.judgePull · name _)) hjudge]
      dsimp only
      rw [hended]
      refine ⟨hworks, hsound', fun _ _ _ => ?_, nofun⟩
      simp only [↓reduceIte]
      exact hstored

theorem run_pull (holder : Member) :
    ((Tenure.port m name view).pull holder).run (w, coming) =
      match view.refusal holder with
      | some fault => (some (.error fault), w, coming)
      | none => (none, w, ((w.store holder).get w.disk name).bytes) := by
  unfold Tenure.port
  dsimp only
  cases view.refusal holder with
  | none => rfl
  | some fault => rfl

/-- Holder after holder is asked. -/
theorem Awaits.stands_copyFrom (hawaits : w.Awaits m name) (hsound : w.Sound P)
    (holders : List Member) :
    Stands P w m name
      ((Store.copyFrom (Tenure.port m name view) name holders).run (w, coming)) := by
  induction holders with
  | nil => exact hawaits.stands_fail hsound coming
  | cons holder rest ih =>
    rw [Store.copyFrom, StateT.run_bind]
    change Stands P w m name ((if !view.inRing holder then _ else _ : StateM (Stores × Bytes) _).run
      (w, coming))
    cases view.inRing holder with
    | false => exact ih
    | true =>
      simp only [Bool.not_true, Bool.false_eq_true, ↓reduceIte, StateT.run_bind, run_pull]
      cases view.refusal holder with
      | none =>
        exact ⟨.refl w m name, hsound, nofun,
          fun others _ => ⟨hawaits, hsound.hears_start m holder name⟩⟩
      | some fault => exact hawaits.stands_hearHolder hsound (pulled_error _) ih

theorem run_copy (arrangement : Arrangement) :
    (Store.copy (Tenure.port m name view) arrangement name holders).run (w, coming) =
      match w.act m fun s d => ((s.beginCopy name).1, d, (s.beginCopy name).2) with
      | (some kind, w) => (.answered kind, w, coming)
      | (none, w) => (Store.copyFrom (Tenure.port m name view) name
          (arrangement.order name holders)).run (w, coming) := by
  unfold Store.copy
  rw [StateT.run_bind, run_act]
  cases w.act m fun s d => ((s.beginCopy name).1, d, (s.beginCopy name).2) with
  | mk begun w =>
    cases begun with
    | none => rfl
    | some kind => rfl

theorem run_copy_of_answer {kind : FileKind} {arrangement : Arrangement}
    (hbegin : (w.store m).beginCopy name = (w.store m, some kind)) :
    (Store.copy (Tenure.port m name view) arrangement name holders).run (w, coming) =
      (.answered kind, w, coming) := by
  rw [run_copy, act_eq (s := w.store m) (d := w.disk) (x := some kind), update_self]
  rw [hbegin]

theorem run_copy_of_stored {arrangement : Arrangement} (hstored : name ∈ (w.store m).files) :
    (Store.copy (Tenure.port m name view) arrangement name holders).run (w, coming) =
      (.answered .fileExists, w, coming) := by
  refine run_copy_of_answer ?_
  rw [Store.beginCopy_eq, if_pos hstored]

/-- A copy is answered at once, or it is the only one that brings the name. -/
theorem Sound.stands_copy (h : w.Sound P) (m : Member) (name : String) (holders : List Member)
    (view : Tenure.View) (arrangement : Arrangement) (coming : Bytes) :
    (∃ kind, (Store.copy (Tenure.port m name view) arrangement name holders).run (w, coming) =
          (.answered kind, w, coming) ∧
        (kind = .ok ∨ kind = .fileExists → name ∈ (w.store m).files)) ∨
      name ∉ (w.store m).receiving ∧ Store.accepts name = true ∧ Stands P w m name
        ((Store.copy (Tenure.port m name view) arrangement name holders).run (w, coming)) := by
  by_cases hstored : name ∈ (w.store m).files
  · exact .inl ⟨.fileExists, run_copy_of_stored hstored, fun _ => hstored⟩
  · by_cases hfree : Store.accepts name = true ∧ name ∉ (w.store m).receiving
    · right
      obtain ⟨hworks, hsound, hawaits⟩ :=
        works_beginReceiving h (.refl w.disk _) hfree.1 hstored
      refine ⟨hfree.2, hfree.1, ?_⟩
      rw [run_copy, act_eq (s := (w.store m).beginReceiving name) (d := w.disk) (x := none)]
      · exact hworks.stands (hawaits.stands_copyFrom hsound _)
      · rw [Store.beginCopy_eq, if_neg hstored, if_pos hfree]
    · left
      refine ⟨.fail, run_copy_of_answer ?_, fun h => by obtain h | h := h <;> cases h⟩
      rw [Store.beginCopy_eq, if_neg hstored, if_neg hfree]

/-- A copy has heard all of a holder, and goes on. -/
theorem Awaits.stands_endHolder {copy : Tenure.Copying}
    (hawaits : w.Awaits copy.order.target copy.order.storedName) (hsound : w.Sound P)
    (hears : Hears P w copy.order.target copy.order.storedName copy.pull copy.coming)
    (closed : Bool) (view : Tenure.View) (coming : Bytes) :
    Stands P w copy.order.target copy.order.storedName
      ((Tenure.endHolder copy closed view).run (w, coming)) := by
  obtain ⟨d, pulled, hfinish, hadvances, hpulled⟩ := hawaits.finish hsound hears closed
  have hact : w.act copy.order.target (fun s d =>
      (s, copy.pull.finish d (s.path copy.order.storedName) closed)) =
      (pulled, { w with disk := d }) := by
    rw [act_eq (s := w.store copy.order.target) (d := d) (x := pulled)]
    · exact congrArg (pulled, ·) (update_self (w := { w with disk := d }))
    · rw [hfinish]
  unfold Tenure.endHolder
  rw [StateT.run_bind, run_act, hact]
  exact hadvances.works.stands (hadvances.awaits.stands_hearHolder hadvances.sound hpulled
    (hadvances.awaits.stands_copyFrom hadvances.sound copy.others))

end Stores

end ReplicaRing
