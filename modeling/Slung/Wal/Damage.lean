import Slung.Lib.RunningHash
import Slung.Wal.Bounds

/-!
# Slung.Wal.Damage — one wrong byte in a committed record (`wal.zig`, `recover` and `checksum`)

`recover` cuts off an incomplete final record and refuses a complete malformed one.  A byte of the body or of
the checksum that changes is always refused: each step of the checksum is one to one.  A byte of the length is
not under the checksum.  It moves the end of the record, and if the new end lies beyond the file the record
passes for a torn final write and is cut off with everything behind it.  `damage_caught_iff` says exactly when
the damage is refused.
-/

namespace Slung.Wal

open Slung.Lib

/-! ## The checksum -/

/-- The step of `checksum`. -/
def mixByte (h : UInt32) (byte : UInt8) : UInt32 := (h ^^^ byte.toUInt32) * 16777619

/-- The multiplier is odd, so that it has an inverse. -/
theorem mul_prime_injective : Function.Injective fun h : UInt32 => h * 16777619 := by
  intro a b hab
  have hinv : ∀ h : UInt32, h * 16777619 * 899433627 = h := by
    intro h
    rw [UInt32.mul_assoc, show (16777619 : UInt32) * 899433627 = 1 from by decide, UInt32.mul_one]
  rw [← hinv a, ← hinv b]
  exact congrArg (· * 899433627) hab

theorem mixByte_mixing : Mixing mixByte where
  state byte a b hab := by
    exact (UInt32.xor_left_inj _).mp (mul_prime_injective hab)
  element h a b hab := by
    have h : a.toUInt32 = b.toUInt32 := (UInt32.xor_right_inj _).mp (mul_prime_injective hab)
    rw [← UInt8.toNat_inj, ← UInt8.toNat_toUInt32, ← UInt8.toNat_toUInt32, h]

theorem checksum_set_ne {bytes : Bytes} {k : ℕ} {b : UInt8} (hk : k < bytes.length) (hb : bytes[k]? ≠ some b) :
    checksum (bytes.set k b) ≠ checksum bytes :=
  mixByte_mixing.foldl_set_ne hk hb _

/-- **The checksum detects every substitution of one byte**, in strings of any length. -/
theorem checksum_detects_substitution (a b : Bytes) (hlen : a.length = b.length)
    (hone : ∃! i : ℕ, a[i]? ≠ b[i]?) : checksum a ≠ checksum b :=
  mixByte_mixing.foldl_ne_of_differ_once hlen hone _

/-- The last bit of the last byte of a record flips. -/
theorem checksum_detects_flipped_bit : checksum [2, 7, 0, 0] ≠ checksum [2, 7, 0, 1] := by
  refine checksum_detects_substitution [2, 7, 0, 0] [2, 7, 0, 1] rfl ⟨3, by decide, ?_⟩
  intro i hi
  match i, hi with
  | 0, hi => exact absurd rfl hi
  | 1, hi => exact absurd rfl hi
  | 2, hi => exact absurd rfl hi
  | 3, _ => rfl
  | _ + 4, hi => exact absurd rfl hi

/-! ## What recovery refuses -/

/-- Every record within the reader's limits has one. -/
theorem Record.Readable.wellFormed {r : Record} (h : r.Readable) : WellFormed r.body := by
  have hpos : 1 ≤ maxRecordSize := by decide
  have hsize := h.size
  exact ⟨⟨by simp, by rw [Record.length_body]; omega⟩, r, decodeBody_readable h⟩

/-- The bytes are records to their end, or to an incomplete one. -/
def ReadsToEnd (bytes : Bytes) : Prop :=
  ∃ (bodies : List Bytes) (rest : Bytes), bytes = bodies.flatMap frame ++ rest ∧
    (∀ body ∈ bodies, WellFormed body) ∧ (rest = [] ∨ Incomplete rest)

/-- Something is wrong from a record on: its length is out of range; or all of it is there, and its checksum is
wrong, or it does not decode, or what follows it is malformed. -/
def Refused (bytes : Bytes) : Prop :=
  readLE 4 bytes 0 < 1 ∨ maxRecordSize < readLE 4 bytes 0 ∨
    headerSize + readLE 4 bytes 0 + trailerSize ≤ bytes.length ∧
      ((checksum ((bytes.drop headerSize).take (readLE 4 bytes 0))).toNat ≠
          readLE 4 bytes (headerSize + readLE 4 bytes 0) ∨
        (∀ r, decodeBody ((bytes.drop headerSize).take (readLE 4 bytes 0)) ≠ .ok r) ∨
        ¬ ReadsToEnd (bytes.drop (readLE 4 bytes 0 + 8)))

theorem readsToEnd_iff_splits (self : Live) (bytes : Bytes) : ReadsToEnd bytes ↔
    ∃ live n, SeesFrames.Splits scanRecord frame SizeOk replayBody self bytes live n := by
  constructor
  · rintro ⟨bodies, rest, hsplit, hok, hrest⟩
    obtain ⟨live, hfold⟩ := (foldlM_replayBody_ok_iff self bodies).mpr fun body hb => (hok body hb).decodes
    exact ⟨live, _, bodies, rest, hsplit, fun body hb => (hok body hb).size, hfold, rfl, (torn_end_iff rest).mpr hrest⟩
  · rintro ⟨live, n, bodies, rest, hsplit, hok, hfold, -, hrest⟩
    have hdecodes := (foldlM_replayBody_ok_iff self bodies).mp ⟨live, hfold⟩
    exact ⟨bodies, rest, hsplit, fun body hb => ⟨hok body hb, hdecodes body hb⟩, (torn_end_iff rest).mp hrest⟩

theorem recover_corrupt_iff (self : Live) (file : Bytes) :
    recover self file = .error .corruptWal ↔ ¬ ReadsToEnd file := by
  constructor
  · rintro hcorrupt ⟨bodies, rest, hsplit, hok, hrest⟩
    obtain ⟨live, hfold⟩ := (foldlM_replayBody_ok_iff self bodies).mpr fun body hb => (hok body hb).decodes
    have hr := (recover_ok_iff self live file _).mpr
      ⟨bodies, rest, hsplit, fun body hb => (hok body hb).size, hfold, rfl, hrest⟩
    cases hcorrupt.symm.trans hr
  · intro hno
    cases hr : recover self file with
    | error e => rw [recover_error hr]
    | ok p =>
      obtain ⟨bodies, rest, hsplit, hok, hfold, -, hrest⟩ := (recover_ok_iff self p.1 file p.2).mp hr
      have hdecodes := (foldlM_replayBody_ok_iff self bodies).mp ⟨p.1, hfold⟩
      exact absurd ⟨bodies, rest, hsplit, fun body hb => ⟨hok body hb, hdecodes body hb⟩, hrest⟩ hno

/-- A record in front is read iff it decodes. -/
theorem readsToEnd_frame {body : Bytes} (rest : Bytes) (h : SizeOk body) :
    ReadsToEnd (frame body ++ rest) ↔ (∃ r, decodeBody body = .ok r) ∧ ReadsToEnd rest := by
  rw [readsToEnd_iff_splits Live.init]
  simp only [recordScanner.splits_of_frame h]
  constructor
  · rintro ⟨live, n, live₁, n₁, happ, -, hsplits⟩
    rw [replayBody_eq] at happ
    refine ⟨?_, (readsToEnd_iff_splits live₁ rest).mpr ⟨live, n₁, hsplits⟩⟩
    cases hd : decodeBody body with
    | error e =>
      rw [hd] at happ
      cases happ
    | ok r => exact ⟨r, rfl⟩
  · rintro ⟨⟨r, hr⟩, hrest⟩
    obtain ⟨live, n, hsplits⟩ := (readsToEnd_iff_splits (Live.init.replay r) rest).mp hrest
    exact ⟨live, _, _, n, by rw [replayBody_eq, hr]; rfl, rfl, hsplits⟩

/-- Well-formed records in front are read. -/
theorem readsToEnd_append {pre : List Bytes} {rest : Bytes} (h : ∀ body ∈ pre, WellFormed body) :
    ReadsToEnd (pre.flatMap frame ++ rest) ↔ ReadsToEnd rest := by
  induction pre with
  | nil => exact Iff.rfl
  | cons body pre ih =>
    obtain ⟨hsize, hdecodes⟩ := h body (by simp)
    have hpre : ReadsToEnd (pre.flatMap frame ++ rest) ↔ ReadsToEnd rest :=
      ih fun body' h' => h body' (List.mem_cons_of_mem _ h')
    rw [List.flatMap_cons, List.append_assoc, readsToEnd_frame _ hsize, hpre]
    exact and_iff_right hdecodes

/-- Without a record in front there is only an incomplete one to read. -/
theorem readsToEnd_of_corrupt {bytes : Bytes} (hne : bytes ≠ []) (h : scanRecord bytes = .corrupt) :
    ¬ ReadsToEnd bytes := by
  rw [readsToEnd_iff_splits Live.init]
  rintro ⟨live, n, hsplits⟩
  obtain ⟨hend | hend, -, -⟩ := (recordScanner.splits_of_no_frame fun body size => by simp [h]).mp hsplits
  · exact hne hend
  · cases h.symm.trans hend

/-- **What is refused**, from the header of a record on. -/
theorem not_readsToEnd_iff {bytes : Bytes} (hheader : headerSize ≤ bytes.length) :
    ¬ ReadsToEnd bytes ↔ Refused bytes := by
  have hh : headerSize = 4 := rfl
  have ht : trailerSize = 4 := rfl
  have hne : bytes ≠ [] := by
    rintro rfl
    cases hheader
  by_cases hsize : readLE 4 bytes 0 < 1 ∨ readLE 4 bytes 0 > maxRecordSize
  · have hscan : scanRecord bytes = .corrupt := by
      unfold scanRecord
      rw [if_neg (by omega), if_pos hsize]
    exact iff_of_true (readsToEnd_of_corrupt hne hscan) (or_assoc.mp (Or.inl hsize))
  by_cases hwhole : readLE 4 bytes 0 > bytes.length - headerSize - trailerSize
  · have hscan : scanRecord bytes = .torn := by
      unfold scanRecord
      rw [if_neg (by omega), if_neg hsize, if_pos hwhole]
    refine iff_of_false (not_not.mpr ⟨[], bytes, rfl, nofun, (torn_end_iff bytes).mp (Or.inr hscan)⟩) ?_
    rintro (h | h | ⟨h, -⟩) <;> omega
  by_cases hsum : (checksum ((bytes.drop headerSize).take (readLE 4 bytes 0))).toNat ≠
      readLE 4 bytes (headerSize + readLE 4 bytes 0)
  · have hscan : scanRecord bytes = .corrupt := by
      unfold scanRecord
      rw [if_neg (by omega), if_neg hsize, if_neg hwhole, if_pos hsum]
    exact iff_of_true (readsToEnd_of_corrupt hne hscan) (Or.inr (Or.inr ⟨by omega, Or.inl hsum⟩))
  have hscan : scanRecord bytes =
      .frame ((bytes.drop headerSize).take (readLE 4 bytes 0)) (readLE 4 bytes 0 + 8) := by
    unfold scanRecord
    rw [if_neg (by omega), if_neg hsize, if_neg hwhole, if_neg hsum]
  obtain ⟨hok, hlen, rest, hrest⟩ := scanRecord_sound hscan
  have hdrop : bytes.drop (readLE 4 bytes 0 + 8) = rest := by
    rw [hlen]
    generalize frame ((bytes.drop headerSize).take (readLE 4 bytes 0)) = framed at hrest
    rw [← hrest, List.drop_left]
  have hreads : ReadsToEnd bytes ↔ (∃ r, decodeBody ((bytes.drop headerSize).take (readLE 4 bytes 0)) = .ok r) ∧
      ReadsToEnd (bytes.drop (readLE 4 bytes 0 + 8)) := by
    rw [← readsToEnd_frame _ hok, hdrop, hrest]
  unfold Refused
  rw [hreads, not_and_or, not_exists]
  constructor
  · exact fun h => Or.inr (Or.inr ⟨by omega, Or.inr h⟩)
  · rintro (h | h | ⟨-, h | h⟩)
    · omega
    · omega
    · exact absurd h hsum
    · exact h

/-- A record that is all there and whose checksum is wrong is malformed. -/
theorem scanRecord_of_checksum {body sum : Bytes} (rest : Bytes) (hbody : SizeOk body)
    (hsum : sum.length = trailerSize) (hne : (checksum body).toNat ≠ leNat sum) :
    scanRecord (leBytes headerSize body.length ++ (body ++ (sum ++ rest))) = .corrupt := by
  obtain ⟨hpos, hmax⟩ := hbody
  have hlt : body.length < 256 ^ 4 := hmax.trans_lt maxRecordSize_lt
  have hh : headerSize = 4 := rfl
  have ht : trailerSize = 4 := rfl
  have hs := segAt_self (leBytes headerSize body.length ++ (body ++ (sum ++ rest)))
  rw [segAt_append, segAt_append, segAt_append, length_leBytes, Nat.zero_add] at hs
  obtain ⟨hlen, hb, htail, -⟩ := hs
  have hread : readLE 4 (leBytes headerSize body.length ++ (body ++ (sum ++ rest))) 0 = body.length :=
    readLE_segAt hlt hlen
  have hstored : readLE 4 (leBytes headerSize body.length ++ (body ++ (sum ++ rest)))
      (headerSize + body.length) = leNat sum := by
    have htake := htail.take
    rw [hsum] at htake
    exact congrArg leNat htake
  have htotal : (leBytes headerSize body.length ++ (body ++ (sum ++ rest))).length =
      headerSize + (body.length + (trailerSize + rest.length)) := by
    simp only [List.length_append, length_leBytes, hsum]
  unfold scanRecord
  rw [hread, hstored, hb.take, htotal, if_neg (by omega), if_neg (by omega), if_neg (by omega), if_pos hne]

/-- A changed byte behind the length does not pass the checksum. -/
theorem scanRecord_set {body : Bytes} (rest : Bytes) (hbody : SizeOk body) {i : ℕ} {b : UInt8} (hi : headerSize ≤ i)
    (hlt : i < (frame body).length) (hb : (frame body)[i]? ≠ some b) :
    scanRecord ((frame body).set i b ++ rest) = .corrupt := by
  have hhead : (leBytes headerSize body.length).length ≤ i := by rwa [length_leBytes]
  rw [length_frame] at hlt
  unfold frame at hb ⊢
  rw [List.getElem?_append_right hhead, length_leBytes] at hb
  rw [List.set_append_right _ _ hhead, length_leBytes]
  by_cases hk : i - headerSize < body.length
  · -- a byte of the body: the hash of the changed body is another
    rw [List.getElem?_append_left hk] at hb
    have hne := checksum_set_ne hk hb
    have hlen : (body.set (i - headerSize) b).length = body.length := List.length_set
    have hsum : leNat (leBytes trailerSize (checksum body).toNat) = (checksum body).toNat :=
      leNat_leBytes_of_lt (checksum_lt body)
    have hwrong : (checksum (body.set (i - headerSize) b)).toNat ≠
        leNat (leBytes trailerSize (checksum body).toNat) := by
      rw [hsum]
      exact fun hsame => hne (UInt32.toNat_inj.mp hsame)
    have hok : SizeOk (body.set (i - headerSize) b) := by
      unfold SizeOk
      rwa [hlen]
    have h := scanRecord_of_checksum rest hok (length_leBytes _ _) hwrong
    rw [hlen] at h
    rwa [List.set_append_left _ _ hk, List.append_assoc, List.append_assoc]
  · -- a byte of the stored checksum
    have hle : body.length ≤ i - headerSize := not_lt.mp hk
    rw [List.getElem?_append_right hle] at hb
    rw [List.set_append_right _ _ hle]
    generalize hj : i - headerSize - body.length = j at hb ⊢
    have hjlt : j < trailerSize := by
      simp only [headerSize, trailerSize] at hj hle ⊢
      omega
    have hlen : ((leBytes trailerSize (checksum body).toNat).set j b).length = trailerSize := by
      rw [List.length_set, length_leBytes]
    rw [List.append_assoc, List.append_assoc]
    refine scanRecord_of_checksum rest hbody hlen fun hsame => hb ?_
    have hback := leBytes_leNat ((leBytes trailerSize (checksum body).toNat).set j b)
    rw [hlen, ← hsame] at hback
    rw [hback]
    exact List.getElem?_set_self (by rwa [length_leBytes])

/-! ## One wrong byte -/

/-- The damage is refused: the byte is not one of the length, or what the new length makes of the record and of
the bytes behind it is malformed and frees nothing twice. -/
def Caught (body : Bytes) (post : List Bytes) (i : ℕ) (b : UInt8) : Prop :=
  headerSize ≤ i ∨ Refused ((frame body).set i b ++ post.flatMap frame) ∧
    ¬ Guarded.FreedTwice ((frame body).set i b ++ post.flatMap frame)

/-- What is reported as corrupt. -/
theorem recover_guarded_corrupt_iff (self : Live) (file : Bytes) :
    Guarded.recover self file = .ok (.error .corruptWal, file) ↔ ¬ ReadsToEnd file ∧ ¬ Guarded.FreedTwice file := by
  by_cases hbad : Guarded.FreedTwice file
  · rw [Guarded.recover_twice hbad]
    exact iff_of_false nofun fun h => h.2 hbad
  · rw [Guarded.recover_eq hbad, ← recover_corrupt_iff self, and_iff_left hbad]
    cases recover self file with
    | error e => simp [Except.map, Except.toOption]
    | ok p => simp [Except.map]

/-- **When damage to a committed record is detected.**  One byte of a record of a well-formed log is replaced
by another.  Recovery reports a corrupt log and leaves the file alone iff the byte is not one of the length, or
the changed length is out of range, or it still fits the file and the bytes it takes do not read as records, and no
value among them that cannot be read has its namespace freed twice. -/
theorem damage_caught_iff (self : Live) (pre post : List Bytes) (body : Bytes) (i : ℕ) (b : UInt8)
    (hlog : ∀ body' ∈ pre ++ body :: post, WellFormed body') (hi : i < (frame body).length)
    (hb : (frame body)[i]? ≠ some b) :
    Guarded.recover self (pre.flatMap frame ++ ((frame body).set i b ++ post.flatMap frame)) =
        .ok (.error .corruptWal, pre.flatMap frame ++ ((frame body).set i b ++ post.flatMap frame)) ↔
      Caught body post i b := by
  have hpre : ∀ body' ∈ pre, WellFormed body' := fun body' h => hlog body' (List.mem_append_left _ h)
  have hbody : WellFormed body := hlog body (by simp)
  have hlen : headerSize ≤ ((frame body).set i b ++ post.flatMap frame).length := by
    rw [List.length_append, List.length_set, length_frame]
    simp only [headerSize]
    omega
  rw [recover_guarded_corrupt_iff, readsToEnd_append hpre, Guarded.freedTwice_append hpre]
  unfold Caught
  rw [← not_readsToEnd_iff hlen]
  refine ⟨Or.inr, fun h => h.elim (fun hi' => ?_) id⟩
  have hscan := scanRecord_set (post.flatMap frame) hbody.size hi' hi hb
  refine ⟨readsToEnd_of_corrupt ?_ hscan, Guarded.not_freedTwice_of_corrupt hscan⟩
  exact fun hnil => by simp [hnil, headerSize] at hlen

/-- A log of a batch and an acknowledgement. -/
def damagedLog : List Record := [.batch [⟨[110], 1, 2, [34, 34], ⟨5, 0, 1⟩, ⟨0, 0, []⟩⟩], .ack 1]

theorem wellFormed_damagedLog : ∀ body ∈ damagedLog.map Record.body, WellFormed body := by
  have hreadable : ∀ r ∈ damagedLog, r.Readable := by decide
  intro body hbody
  obtain ⟨r, hr, rfl⟩ := List.mem_map.mp hbody
  exact (hreadable r hr).wellFormed

/-- A changed byte of the batch itself is detected. -/
theorem damage_caught_example :
    let body := (Record.batch [⟨[110], 1, 2, [34, 34], ⟨5, 0, 1⟩, ⟨0, 0, []⟩⟩]).body
    let file := (frame body).set 30 7 ++ (Record.ack 1).encode
    Guarded.recover Live.init file = .ok (.error .corruptWal, file) := by
  intro body file
  have h := damage_caught_iff Live.init [] [(Record.ack 1).body] body 30 7 wellFormed_damagedLog
    (by decide) (by decide)
  exact h.mpr (Or.inl (by decide))

/-- The first byte of the batch's length is changed from 52 to 200.  Recovery takes the batch for a torn final
write, reports success and leaves an empty file: the acknowledgement behind it is gone as well. -/
theorem damage_cut_off :
    let body := (Record.batch [⟨[110], 1, 2, [34, 34], ⟨5, 0, 1⟩, ⟨0, 0, []⟩⟩]).body
    let post := [(Record.ack 1).body]
    (∀ body' ∈ body :: post, WellFormed body') ∧ 0 < (frame body).length ∧ (frame body)[0]? ≠ some 200 ∧
      Guarded.recover Live.init ((frame body).set 0 200 ++ post.flatMap frame) = .ok (.ok Live.init, []) := by
  refine ⟨wellFormed_damagedLog, by decide, by decide, ?_⟩
  have hone : ¬ Guarded.FreedTwice
      ((frame (Record.batch [⟨[110], 1, 2, [34, 34], ⟨5, 0, 1⟩, ⟨0, 0, []⟩⟩]).body).set 0 200 ++
        [(Record.ack 1).body].flatMap frame) := by
    exact Guarded.not_freedTwice_of_torn rfl
  rw [Guarded.recover_eq hone]
  have hcut : recover Live.init
      ((frame (Record.batch [⟨[110], 1, 2, [34, 34], ⟨5, 0, 1⟩, ⟨0, 0, []⟩⟩]).body).set 0 200 ++
        [(Record.ack 1).body].flatMap frame) = .ok (Live.init, []) := by
    decide
  rw [hcut]
  rfl

end Slung.Wal
