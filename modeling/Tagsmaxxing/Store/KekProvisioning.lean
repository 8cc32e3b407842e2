import Tagsmaxxing.Store.LocalBlob

/-! # Provisioning a KEK for a local blob store

A local store may run without a KEK at first and with one later, on the same directory. Files written before then are
plaintext, files written after are envelopes, and `get` tells them apart by the first three bytes. A plaintext that
starts like an envelope can then no longer be read (`get_after_put_iff`). A `get` changes nothing, so a history is made
of puts, which may fail, and of the KEK being provisioned. -/

namespace Tagsmaxxing.LocalBlob

open Envelope

/-- A call of `put`, with what fails in it and what it draws. -/
structure Put where
  fault : Option PutFailure
  draws : Draws (Fill nonceSize)
  key : String
  data : Bytes

inductive Event
  | put (p : Put)
  | provision

/-- A store on a directory. -/
structure Store (π : Type) where
  kek : Option FileKek
  disk : Disk π

section
variable {π : Type} [DecidableEq π] (paths : Paths π) (aes : Aes256Gcm) (kek : FileKek)

/-- What a put does and returns. -/
def Store.put (s : Store π) (p : Put) : Disk π × Exec Unit :=
  LocalBlob.put paths aes s.kek p.fault p.draws p.key p.data s.disk

def Store.step (s : Store π) : Event → Store π
  | .put p => { s with disk := (s.put paths aes p).1 }
  | .provision => { s with kek := some kek }

def Store.run (s : Store π) (events : List Event) : Store π := events.foldl (Store.step paths aes kek) s

end

section
variable {π : Type} [DecidableEq π] {paths : Paths π} {aes : Aes256Gcm} {kek : FileKek}

theorem run_keeps {path : π} {node : Node} (events : List Event) :
    ∀ {s : Store π}, s.disk path = some node → (s.run paths aes kek events).disk path = some node := by
  induction events with
  | nil => exact id
  | cons e events ih =>
    intro s h
    refine @ih (s.step paths aes kek e) ?_
    cases e with
    | put p => exact put_keeps h p.fault
    | provision => exact h

/-- The KEK is the one that was there, or the one provisioned. -/
theorem run_kek (events : List Event) :
    ∀ s : Store π, (s.run paths aes kek events).kek = s.kek ∨ (s.run paths aes kek events).kek = some kek := by
  induction events with
  | nil => exact fun s => .inl rfl
  | cons e events ih =>
    intro s
    cases e with
    | put p => exact ih (s.step paths aes kek (.put p))
    | provision => exact .inr ((ih (s.step paths aes kek .provision)).elim id id)

/-- A file of plaintext is read back without a KEK; with one, unless it starts like an envelope. What an envelope
    opens to is shorter than it. -/
theorem holds_plain_iff {kek : Option FileKek} {data : Bytes} :
    Holds aes kek data data ↔ ¬(kek.isSome = true ∧ isEnvelope data = true) := by
  cases kek with
  | none => simp [Holds]
  | some kek =>
    rw [← decode_eq_ok_iff_holds "", decode_some_eq_ok_iff]
    constructor
    · rintro (⟨-, hopen⟩ | ⟨hplain, -⟩) ⟨-, hsniffed⟩
      · have hlength := length_of_openEnvelope hopen
        simp only [tagSize] at hlength
        omega
      · exact Bool.false_ne_true (hplain.symm.trans hsniffed)
    · intro h
      exact .inr ⟨by simpa using h, rfl⟩

theorem length_le_of_holds {kek : Option FileKek} {data bytes : Bytes} (h : Holds aes kek data bytes) :
    data.length ≤ bytes.length := by
  rw [← decode_eq_ok_iff_holds ""] at h
  cases kek with
  | none => exact (congrArg List.length (Exec.ok.inj h)).ge
  | some kek =>
    obtain ⟨-, hopen⟩ | ⟨-, rfl⟩ := decode_some_eq_ok_iff.1 h
    · have hlength := length_of_openEnvelope hopen
      omega
    · exact le_rfl

/-- What a put without a KEK leaves is the plaintext, or a part of it, from which no KEK makes the whole. -/
theorem holds_kept_iff {kek : Option FileKek} {data : Bytes} {fault : Option PutFailure} :
    Holds aes kek data (kept fault data) ↔
      ¬(Loses none data fault ∨ kek.isSome = true ∧ isEnvelope data = true) := by
  by_cases hloses : Loses none data fault
  · refine iff_of_false (fun h => ?_) fun h => h (.inl hloses)
    obtain ⟨n, rfl, m, hm, hshort, -⟩ := hloses
    obtain rfl : n = m := Option.some.inj hm
    have hlength := length_le_of_holds h
    simp only [kept, List.length_take, storedLength] at hlength hshort
    omega
  · have hkept : kept fault data = data := by
      rcases fault with - | (- | - | made | - | written | written)
      case some.write =>
        exact List.take_of_length_le
          (by simpa [Loses, PutFailure.leavesPart, PutFailure.written, storedLength] using hloses)
      all_goals rfl
    rw [hkept, holds_plain_iff, or_iff_right hloses]

/-- Every put that returned `Ok`, in every history: a later `get` returns the bytes put iff the put found a file that
    holds the data, or nothing at its path, and then did not lose a part of what it wrote, and did not store the bytes
    as they are, starting like an envelope, before a KEK was provisioned. -/
theorem get_after_put_iff {start : Disk π} {before after : List Event} {p : Put} {s s' : Store π}
    (hs : Store.run paths aes kek ⟨none, start⟩ before = s)
    (hs' : (s.step paths aes kek (.put p)).run paths aes kek after = s') (hok : (s.put paths aes p).2 = .ok ()) :
    get paths aes s'.kek p.key s'.disk = .ok p.data ↔
      (∀ node, s.disk (paths.resolve p.key) = some node →
        ∃ bytes, node = .file bytes ∧ Holds aes s'.kek p.data bytes) ∧
      ¬(s.disk (paths.resolve p.key) = none ∧ (Loses s.kek p.data p.fault ∨
        s.kek = none ∧ s'.kek.isSome = true ∧ isEnvelope p.data = true)) := by
  have hkey := traversal_of_put_ok hok
  cases hnode : s.disk (paths.resolve p.key) with
  | some node =>
    -- the put wrote nothing, and what was there still is
    have hkept : s'.disk (paths.resolve p.key) = some node := hs' ▸ run_keeps after (put_keeps hnode p.fault)
    simp [get_eq_ok_iff hkey hkept, decode_eq_ok_iff_holds]
  | none =>
    obtain ⟨bytes, hbytes, hfile⟩ := put_ok_of_none hnode hok
    have hkept : s'.disk (paths.resolve p.key) = some (.file (kept p.fault bytes)) := hs' ▸ run_keeps after hfile
    simp only [get_eq_ok_iff hkey hkept, Node.file.injEq, exists_eq_left']
    have hkek' : s'.kek = s.kek ∨ s'.kek = some kek := hs' ▸ run_kek after (s.step paths aes kek (.put p))
    cases hkek : s.kek with
    | none =>
      obtain rfl : p.data = bytes := by simpa [hkek, toStore] using hbytes
      rw [decode_eq_ok_iff_holds, holds_kept_iff]
      simp
    | some kek₀ =>
      -- provisioned before the put, and it is the same KEK
      have hstart : s.kek = none ∨ s.kek = some kek := hs ▸ run_kek before ⟨none, start⟩
      have hsame : s'.kek = s.kek := by
        rcases hkek' with h | h
        · exact h
        · rw [h, hstart.resolve_left (by simp [hkek])]
      rw [hsame, decode_kept_iff hbytes, hkek]
      simp

/-- A put that does not fail, of a KEK-less store. -/
def plainPut (data : Bytes) : Put := ⟨none, noDraws, "k", data⟩

/-- An empty directory: bytes put, then the KEK provisioned. -/
def provisioned (data : Bytes) : Store String :=
  Store.run flat (Aead.tagOnly ..) zeroKek ⟨none, fun _ => none⟩ [.put (plainPut data), .provision]

/-- Three bytes put before the KEK is provisioned are read after. -/
theorem get_after_provision :
    get flat (Aead.tagOnly ..) (some zeroKek) "k" (provisioned [1, 2, 3]).disk = .ok [1, 2, 3] :=
  (@get_after_put_iff String _ flat (Aead.tagOnly ..) zeroKek (fun _ => none) [] [.provision] (plainPut [1, 2, 3])
    _ _ rfl rfl (by decide)).2 ⟨by simp [Store.run], by simp [Loses, plainPut, isEnvelope, magic]⟩

/-- Four bytes that start like an envelope: the put returns `Ok`, and after provisioning they cannot be read. -/
theorem lookalike_lost_after_provision :
    ((Store.mk none fun _ => none).put flat (Aead.tagOnly ..) (plainPut (magic ++ [0]))).2 = .ok () ∧
      get flat (Aead.tagOnly ..) (some zeroKek) "k" (provisioned (magic ++ [0])).disk =
        .error "envelope decryption failed for key `k`" := by
  decide +kernel

end

end Tagsmaxxing.LocalBlob
