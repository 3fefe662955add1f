import Slung.Lib.Framing
import Slung.Wal.Codec

/-!
# Slung.Wal.Recovery — reading the log back after a crash (`wal.zig`, `recover`)

`recover` walks the file record by record.  A short header or body is a torn final write and is cut off; a
complete record that is malformed is a hard failure.  `recoverLoop` is the loop of the source, with a fuel
of one step for each byte; `recover_eq` says that it is `scanLog` over the frames `scanRecord` sees, so the
results on cut logs are those of `Lib.Framing`.
-/

namespace Slung.Wal

open Slung.Lib

/-- The loop of `recover`; the second component is the length that the file is cut to, if it is. -/
def recoverLoop (bytes : Bytes) : ℕ → Live → ℕ → Except Err (Live × Option ℕ)
  | 0, self, _ => .ok (self, none)
  | fuel + 1, self, pos =>
    if bytes.length ≤ pos then .ok (self, none)
    else if bytes.length - pos < headerSize then .ok (self, some pos)
    else
      let length := readLE 4 bytes pos
      if length < 1 ∨ length > maxRecordSize then .error .corruptWal
      else
        let remaining := bytes.length - pos
        if length > remaining - headerSize - trailerSize then .ok (self, some pos)
        else
          let body := (bytes.drop (pos + headerSize)).take length
          let stored := readLE 4 bytes (pos + headerSize + length)
          if (checksum body).toNat ≠ stored then .error .corruptWal
          else match replayBody self body with
            | .error e => .error e
            | .ok self => recoverLoop bytes fuel self (pos + headerSize + length + trailerSize)

/-- The recovered state and the file that recovery leaves. -/
def recover (self : Live) (file : Bytes) : Except Err (Live × Bytes) :=
  if file.length = 0 then .ok (self, file)
  else match recoverLoop file file.length self 0 with
    | .error e => .error e
    | .ok (self, none) => .ok (self, file)
    | .ok (self, some length) => .ok (self, file.take length)

/-! ## The loop as a scan over frames -/

/-- What `recover` sees at the head of the bytes that are left. -/
def scanRecord (bytes : Bytes) : Scan Bytes :=
  if bytes.length < headerSize then .torn
  else if readLE 4 bytes 0 < 1 ∨ readLE 4 bytes 0 > maxRecordSize then .corrupt
  else if readLE 4 bytes 0 > bytes.length - headerSize - trailerSize then .torn
  else if (checksum ((bytes.drop headerSize).take (readLE 4 bytes 0))).toNat ≠
      readLE 4 bytes (headerSize + readLE 4 bytes 0) then .corrupt
  else .frame ((bytes.drop headerSize).take (readLE 4 bytes 0)) (readLE 4 bytes 0 + 8)

/-- The frame at a position, read in the whole file. -/
theorem scanRecord_drop (bytes : Bytes) (pos : ℕ) : scanRecord (bytes.drop pos) =
    if bytes.length - pos < headerSize then .torn
    else if readLE 4 bytes pos < 1 ∨ readLE 4 bytes pos > maxRecordSize then .corrupt
    else if readLE 4 bytes pos > bytes.length - pos - headerSize - trailerSize then .torn
    else if (checksum ((bytes.drop (pos + headerSize)).take (readLE 4 bytes pos))).toNat ≠
        readLE 4 bytes (pos + headerSize + readLE 4 bytes pos) then .corrupt
    else .frame ((bytes.drop (pos + headerSize)).take (readLE 4 bytes pos)) (readLE 4 bytes pos + 8) := by
  unfold scanRecord
  simp only [List.length_drop, readLE_drop, List.drop_drop, Nat.add_zero, ← Nat.add_assoc]

/-- **The loop is `scanLog`.** -/
theorem recoverLoop_eq (bytes : Bytes) :
    ∀ (fuel : ℕ) (self : Live) (pos : ℕ), pos ≤ bytes.length → bytes.length - pos ≤ fuel →
      recoverLoop bytes fuel self pos =
        (scanLog scanRecord replayBody .corruptWal fuel self (bytes.drop pos)).map
          fun r => (r.1, if pos + r.2 < bytes.length then some (pos + r.2) else none)
  | 0, self, pos, hpos, hfuel => by
    simp only [recoverLoop, scanLog, Except.map, Nat.add_zero]
    rw [if_neg (by omega)]
  | fuel + 1, self, pos, hpos, hfuel => by
    rw [recoverLoop, scanLog]
    have hnil : bytes.drop pos = [] ↔ bytes.length ≤ pos := List.drop_eq_nil_iff
    by_cases hend : bytes.length ≤ pos
    · rw [if_pos hend, if_pos (hnil.mpr hend)]
      simp only [Except.map, Nat.add_zero]
      rw [if_neg (by omega)]
    have htorn : (Except.ok (self, some pos) : Except Err (Live × Option ℕ)) =
        Except.map (fun r => (r.1, if pos + r.2 < bytes.length then some (pos + r.2) else none))
          (Except.ok (self, 0)) := by
      simp only [Except.map, Nat.add_zero]
      rw [if_pos (by omega)]
    rw [if_neg hend, if_neg (mt hnil.mp hend)]
    rw [scanRecord_drop]
    by_cases h1 : bytes.length - pos < headerSize
    · rw [if_pos h1, if_pos h1]
      exact htorn
    rw [if_neg h1, if_neg h1]
    by_cases h2 : readLE 4 bytes pos < 1 ∨ readLE 4 bytes pos > maxRecordSize
    · rw [if_pos h2, if_pos h2]
      rfl
    rw [if_neg h2, if_neg h2]
    by_cases h3 : readLE 4 bytes pos > bytes.length - pos - headerSize - trailerSize
    · rw [if_pos h3, if_pos h3]
      exact htorn
    rw [if_neg h3, if_neg h3]
    simp only
    by_cases h4 : (checksum ((bytes.drop (pos + headerSize)).take (readLE 4 bytes pos))).toNat ≠
        readLE 4 bytes (pos + headerSize + readLE 4 bytes pos)
    · rw [if_pos h4, if_pos h4]
      rfl
    rw [if_neg h4, if_neg h4]
    simp only [List.drop_drop]
    cases replayBody self ((bytes.drop (pos + headerSize)).take (readLE 4 bytes pos)) with
    | error e => rfl
    | ok self' =>
      simp only [headerSize, trailerSize] at h1 h3
      have hnext : pos + headerSize + readLE 4 bytes pos + trailerSize =
          pos + (readLE 4 bytes pos + 8) := by
        simp only [headerSize, trailerSize]
        omega
      simp only
      rw [hnext, recoverLoop_eq bytes fuel self' _ (by omega) (by omega)]
      cases scanLog scanRecord replayBody .corruptWal fuel self'
          (bytes.drop (pos + (readLE 4 bytes pos + 8))) with
      | error e => rfl
      | ok r => simp only [Except.map, Nat.add_assoc]

/-- **Recovery folds the frames of the file and keeps the bytes they take.** -/
theorem recover_eq (self : Live) (file : Bytes) :
    recover self file = (scanLog scanRecord replayBody .corruptWal file.length self file).map
      fun r => (r.1, file.take r.2) := by
  unfold recover
  by_cases h : file.length = 0
  · obtain rfl := List.length_eq_zero_iff.mp h
    rfl
  · rw [if_neg h, recoverLoop_eq file file.length self 0 (Nat.zero_le _) (by omega), List.drop_zero]
    cases scanLog scanRecord replayBody .corruptWal file.length self file with
    | error e => rfl
    | ok r =>
      simp only [Except.map, Nat.zero_add]
      by_cases hr : r.2 < file.length
      · rw [if_pos hr]
      · rw [if_neg hr]
        simp only
        rw [List.take_of_length_le (by omega)]

/-! ## Written records are frames -/

theorem checksum_lt (bytes : Bytes) : (checksum bytes).toNat < 256 ^ 4 := (checksum bytes).toNat_lt

theorem maxRecordSize_lt : maxRecordSize < 256 ^ 4 := by decide

/-- A body with its length before it and its checksum behind it. -/
def frame (body : Bytes) : Bytes :=
  leBytes headerSize body.length ++ (body ++ leBytes trailerSize (checksum body).toNat)

theorem length_frame (body : Bytes) : (frame body).length = body.length + 8 := by
  unfold frame
  simp only [List.length_append, length_leBytes, headerSize, trailerSize]
  omega

/-- The sizes of a body that `recover` reads. -/
def SizeOk (body : Bytes) : Prop := 1 ≤ body.length ∧ body.length ≤ maxRecordSize

theorem scanRecord_frame {body : Bytes} (rest : Bytes) (h : SizeOk body) :
    scanRecord (frame body ++ rest) = .frame body (frame body).length := by
  obtain ⟨hpos, hmax⟩ := h
  have hlt : body.length < 256 ^ 4 := by
    have := maxRecordSize_lt
    omega
  have hs : SegAt (frame body ++ rest) 0 (leBytes headerSize body.length ++
      (body ++ leBytes trailerSize (checksum body).toNat)) := segAt_left (frame body) rest
  rw [segAt_append, segAt_append, length_leBytes, Nat.zero_add] at hs
  obtain ⟨hlen, hb, hsum⟩ := hs
  have hread : readLE 4 (frame body ++ rest) 0 = body.length := readLE_segAt hlt hlen
  have hstored : readLE 4 (frame body ++ rest) (headerSize + body.length) = (checksum body).toNat :=
    readLE_segAt (checksum_lt _) hsum
  have htotal : (frame body ++ rest).length = body.length + 8 + rest.length := by
    rw [List.length_append, length_frame]
  unfold scanRecord
  rw [hread, hstored, hb.take, htotal, if_neg (by simp only [headerSize]; omega), if_neg (by omega),
    if_neg (by simp only [headerSize, trailerSize]; omega), if_neg (by simp), length_frame]

theorem scanRecord_encode (r : Record) (rest : Bytes) (h : r.payload.length ≤ maxRecordSize - 1) :
    scanRecord (r.encode ++ rest) = .frame r.body r.encode.length := by
  have hpos : 1 ≤ maxRecordSize := by decide
  have hbody := r.length_body
  exact scanRecord_frame rest ⟨by omega, by omega⟩

/-- What `recover` takes for a record is one. -/
theorem scanRecord_sound {bytes body : Bytes} {size : ℕ} (h : scanRecord bytes = .frame body size) :
    SizeOk body ∧ size = (frame body).length ∧ frame body <+: bytes := by
  unfold scanRecord at h
  split_ifs at h with hheader hsize hwhole hsum
  obtain ⟨rfl, rfl⟩ := Scan.frame.inj h
  simp only [headerSize, trailerSize, not_or, not_lt, ne_eq, not_not] at hheader hsize hwhole hsum ⊢
  generalize hlength : readLE 4 bytes 0 = length at *
  have hbody : ((bytes.drop 4).take length).length = length := by
    rw [List.length_take, List.length_drop]
    omega
  refine ⟨⟨by omega, by omega⟩, by rw [length_frame, hbody], ?_⟩
  have hhead : leBytes 4 length = bytes.take 4 := by
    have hread : leBytes 4 (readLE 4 bytes 0) = (bytes.drop 0).take 4 := leBytes_readLE (by omega)
    rwa [hlength] at hread
  have htail : leBytes 4 (checksum ((bytes.drop 4).take length)).toNat = (bytes.drop (4 + length)).take 4 := by
    rw [hsum]
    exact leBytes_readLE (by omega)
  have hframe : frame ((bytes.drop 4).take length) = bytes.take (length + 8) := by
    unfold frame
    rw [hbody]
    simp only [headerSize, trailerSize]
    rw [hhead, htail, ← List.drop_drop, ← List.take_add, ← List.take_add]
    congr 1
    omega
  rw [hframe]
  exact List.take_prefix _ _

/-- Recovery sees exactly the framed bodies of a size it reads. -/
theorem recordScanner : SeesFrames scanRecord frame SizeOk where
  ne_nil body h := by
    have := length_frame body
    rw [h, List.length_nil] at this
    omega
  sound _ _ _ h := scanRecord_sound h
  complete _ rest h := scanRecord_frame rest h

theorem scanRecord_torn (r : Record) (k : ℕ) (h : r.payload.length ≤ maxRecordSize - 1)
    (hk : k < r.encode.length) : scanRecord (r.encode.take k) = .torn := by
  have hpos : 1 ≤ maxRecordSize := by decide
  have hbody := r.length_body
  have hlt : r.body.length < 256 ^ 4 := by
    have := maxRecordSize_lt
    omega
  have hlen : (r.encode.take k).length = k := by
    rw [List.length_take]
    omega
  rw [Record.length_encode] at hk
  unfold scanRecord
  rw [hlen]
  by_cases h4 : k < headerSize
  · rw [if_pos h4]
  · have hread : readLE 4 (r.encode.take k) 0 = r.body.length := by
      refine readLE_segAt hlt ?_
      unfold Record.encode
      rw [List.take_append, List.take_of_length_le (by rw [length_leBytes]; omega)]
      exact segAt_left _ _
    rw [if_neg h4, hread, if_neg (by omega), if_pos (by simp only [headerSize, trailerSize]; omega)]

/-- Records whose size passes the writer's check, framed as the writer frames them. -/
def recordFraming : Framing Record Bytes where
  Valid r := r.payload.length ≤ maxRecordSize - 1
  encode := Record.encode
  body := Record.body
  scan := scanRecord
  encode_ne_nil r h := by
    have := r.length_encode
    rw [h, List.length_nil] at this
    omega
  scan_frame := scanRecord_encode
  scan_torn := scanRecord_torn

/-! ## Logs -/

/-- The log of a list of records. -/
def logOf (rs : List Record) : Bytes := rs.flatMap Record.encode

/-- The records that lie wholly inside the first `n` bytes of their log. -/
def wholeRecords (rs : List Record) (n : ℕ) : List Record := recordFraming.whole rs n

@[simp] theorem logOf_nil : logOf [] = [] := rfl

@[simp] theorem logOf_append (rs rs' : List Record) : logOf (rs ++ rs') = logOf rs ++ logOf rs' :=
  List.flatMap_append

theorem logOf_cons (r : Record) (rs : List Record) : logOf (r :: rs) = r.encode ++ logOf rs := List.flatMap_cons

theorem logOf_concat (rs : List Record) (r : Record) : logOf (rs ++ [r]) = logOf rs ++ r.encode := by
  simp [logOf]

theorem wholeRecords_isPrefix (rs : List Record) (n : ℕ) : wholeRecords rs n <+: rs :=
  recordFraming.whole_isPrefix rs n

theorem wholeRecords_logOf (rs : List Record) : wholeRecords rs (logOf rs).length = rs :=
  recordFraming.whole_of_length_le (Nat.le_refl _)

theorem logOf_isPrefix {rs rs' : List Record} (h : rs <+: rs') : logOf rs <+: logOf rs' := by
  obtain ⟨t, rfl⟩ := h
  exact ⟨logOf t, (logOf_append _ _).symm⟩

/-- Replaying the bodies of readable records is replaying the records. -/
theorem foldlM_replayBody {rs : List Record} (h : ∀ r ∈ rs, r.Readable) (self : Live) :
    (rs.map Record.body).foldlM replayBody self = .ok (self.replayAll rs) := by
  induction rs generalizing self with
  | nil => rfl
  | cons r rs ih =>
    rw [List.map_cons, List.foldlM_cons, replayBody_readable (h r (by simp))]
    exact ih (fun r' hr' => h r' (by simp [hr'])) _

/-- **Recovery of a cut log**: the whole records are replayed and the rest is cut off. -/
theorem recover_take {rs : List Record} (h : ∀ r ∈ rs, r.Readable) (self : Live) (n : ℕ) :
    recover self ((logOf rs).take n) =
      .ok (self.replayAll (wholeRecords rs n), logOf (wholeRecords rs n)) := by
  have hscan := recordFraming.scanLog_take replayBody .corruptWal rs (fun r hr => (h r hr).size) n
    ((logOf rs).take n).length self (Nat.le_refl _)
  have hfold := foldlM_replayBody (fun r hr => h r ((wholeRecords_isPrefix rs n).subset hr)) self
  rw [recover_eq]
  change (scanLog recordFraming.scan replayBody .corruptWal _ self
    ((recordFraming.encodeAll rs).take n)).map _ = _
  rw [hscan]
  change (Except.map _ (((wholeRecords rs n).map Record.body).foldlM replayBody self)).map _ = _
  rw [hfold]
  have hpre : logOf (wholeRecords rs n) <+: logOf rs := logOf_isPrefix (wholeRecords_isPrefix rs n)
  have hle : (logOf (wholeRecords rs n)).length ≤ n := recordFraming.length_encodeAll_whole_le rs n
  have hcut : (((logOf rs).take n).take (logOf (wholeRecords rs n)).length) =
      logOf (wholeRecords rs n) := by
    rw [List.take_take, Nat.min_eq_left hle]
    exact (List.prefix_iff_eq_take.mp hpre).symm
  simp only [Except.map]
  rw [← hcut]
  rfl

/-- Recovery of a log that was not cut. -/
theorem recover_logOf {rs : List Record} (h : ∀ r ∈ rs, r.Readable) (self : Live) :
    recover self (logOf rs) = .ok (self.replayAll rs, logOf rs) := by
  have := recover_take h self (logOf rs).length
  rwa [List.take_length, wholeRecords_logOf] at this

/-- Recovery of a log with a torn record at its end. -/
theorem recover_torn {rs : List Record} {r : Record} (h : ∀ r ∈ rs, r.Readable) (hr : r.Readable)
    (self : Live) {k : ℕ} (hk : k < r.encode.length) :
    recover self (logOf rs ++ r.encode.take k) = .ok (self.replayAll rs, logOf rs) := by
  have hall : ∀ r' ∈ rs ++ [r], r'.Readable := by
    intro r' hr'
    rcases List.mem_append.mp hr' with hr' | hr'
    · exact h r' hr'
    · exact List.mem_singleton.mp hr' ▸ hr
  have hrec := recover_take hall self ((logOf rs).length + k)
  have htake : (logOf (rs ++ [r])).take ((logOf rs).length + k) = logOf rs ++ r.encode.take k :=
    recordFraming.encodeAll_take_torn rs r k
  have hwhole : wholeRecords (rs ++ [r]) ((logOf rs).length + k) = rs :=
    recordFraming.whole_append_torn hk
  rwa [htake, hwhole] at hrec

/-! ## Where recovery ends -/

/-- The beginning of a record whose end is not there. -/
def Incomplete (bytes : Bytes) : Prop :=
  bytes ≠ [] ∧ (bytes.length < headerSize ∨
    1 ≤ readLE 4 bytes 0 ∧ readLE 4 bytes 0 ≤ maxRecordSize ∧
      bytes.length < headerSize + readLE 4 bytes 0 + trailerSize)

theorem scanRecord_torn_iff {bytes : Bytes} (hne : bytes ≠ []) :
    scanRecord bytes = .torn ↔ Incomplete bytes := by
  unfold scanRecord Incomplete
  have hh : headerSize = 4 := rfl
  have ht : trailerSize = 4 := rfl
  by_cases hheader : bytes.length < headerSize
  · rw [if_pos hheader]
    exact iff_of_true rfl ⟨hne, Or.inl hheader⟩
  rw [if_neg hheader]
  by_cases hsize : readLE 4 bytes 0 < 1 ∨ readLE 4 bytes 0 > maxRecordSize
  · rw [if_pos hsize]
    refine iff_of_false nofun ?_
    rintro ⟨-, h | ⟨hmin, hmax, -⟩⟩
    · exact hheader h
    · omega
  rw [if_neg hsize]
  by_cases hwhole : readLE 4 bytes 0 > bytes.length - headerSize - trailerSize
  · rw [if_pos hwhole]
    exact iff_of_true rfl ⟨hne, Or.inr ⟨by omega, by omega, by omega⟩⟩
  rw [if_neg hwhole]
  refine iff_of_false (fun h => by split_ifs at h) ?_
  rintro ⟨-, h | ⟨-, -, h⟩⟩
  · exact hheader h
  · omega

theorem torn_end_iff (rest : Bytes) :
    (rest = [] ∨ scanRecord rest = .torn) ↔ (rest = [] ∨ Incomplete rest) := by
  by_cases hne : rest = []
  · simp [hne]
  · rw [scanRecord_torn_iff hne]

/-- **When recovery accepts a file**: iff it is a row of framed bodies that replay, and behind them there is
nothing or an incomplete record, which is cut off. -/
theorem recover_ok_iff (self live : Live) (file file' : Bytes) : recover self file = .ok (live, file') ↔
    ∃ (bodies : List Bytes) (rest : Bytes), file = bodies.flatMap frame ++ rest ∧ (∀ body ∈ bodies, SizeOk body) ∧
      bodies.foldlM replayBody self = .ok live ∧ file' = bodies.flatMap frame ∧ (rest = [] ∨ Incomplete rest) := by
  rw [recover_eq]
  constructor
  · intro h
    cases hscan : scanLog scanRecord replayBody .corruptWal file.length self file with
    | error e =>
      rw [hscan] at h
      cases h
    | ok r =>
      rw [hscan] at h
      obtain ⟨rfl, rfl⟩ := Prod.mk.inj (Except.ok.inj h)
      obtain ⟨bodies, rest, hsplit, hok, hfold, hn, hrest⟩ :=
        (recordScanner.scanLog_ok_iff replayBody _ _ _ _ (Nat.le_refl _)).mp hscan
      refine ⟨bodies, rest, hsplit, hok, hfold, ?_, (torn_end_iff rest).mp hrest⟩
      rw [hn, hsplit, List.take_left]
  · rintro ⟨bodies, rest, hsplit, hok, hfold, rfl, hrest⟩
    have hscan := (recordScanner.scanLog_ok_iff replayBody .corruptWal file.length self file (Nat.le_refl _)).mpr
      ⟨bodies, rest, hsplit, hok, hfold, rfl, (torn_end_iff rest).mpr hrest⟩
    rw [hscan]
    show Except.ok (live, file.take (bodies.flatMap frame).length) = _
    rw [hsplit, List.take_left]

/-! ## A crash at any byte -/

/-- What the writer appends to an empty file. -/
def written (rs : List Record) : Except Err (List Bytes) := rs.mapM Record.write

theorem written_eq_ok_iff : ∀ {rs : List Record} {parts : List Bytes},
    written rs = .ok parts ↔ (∀ r ∈ rs, r.Writable) ∧ parts = rs.map Record.encode
  | [], parts => by simp [written, pure, Except.pure, eq_comm]
  | r :: rs, parts => by
    have hcons : written (r :: rs) = r.write.bind fun bytes => (written rs).map (bytes :: ·) := by
      unfold written
      rw [List.mapM_cons]
      rfl
    rw [hcons]
    constructor
    · intro h
      cases hr : r.write with
      | error e => rw [hr] at h; cases h
      | ok bytes =>
        cases hrs : written rs with
        | error e => rw [hr, hrs] at h; cases h
        | ok rest =>
          rw [hr, hrs] at h
          cases h
          obtain ⟨hw, rfl⟩ := (r.write_ok_iff bytes).mp hr
          obtain ⟨hws, rfl⟩ := written_eq_ok_iff.mp hrs
          exact ⟨by simpa using ⟨hw, hws⟩, rfl⟩
    · rintro ⟨hw, rfl⟩
      rw [(r.write_ok_iff _).mpr ⟨hw r (by simp), rfl⟩,
        written_eq_ok_iff.mpr ⟨fun r' hr' => hw r' (by simp [hr']), rfl⟩]
      rfl

/-- **Crash-prefix consistency.**  Recovery of the first `n` bytes of a log replays the records that lie
wholly inside them, cuts the file to their end, and a second recovery changes nothing. -/
theorem recover_crash_prefix (rs : List Record) (parts : List Bytes) (n : ℕ)
    (hparts : written rs = .ok parts) (hfields : ∀ r ∈ rs, ∀ m ∈ r.mutations, m.FieldsOk) :
    ∃ kept lost, rs = kept ++ lost ∧
      (parts.take kept.length).flatten.length ≤ n ∧
      (∀ r rest, lost = r :: rest → n < (parts.take (kept.length + 1)).flatten.length) ∧
      recover Live.init (parts.flatten.take n) =
        .ok (Live.init.replayAll kept, (parts.take kept.length).flatten) ∧
      recover Live.init (parts.take kept.length).flatten =
        .ok (Live.init.replayAll kept, (parts.take kept.length).flatten) := by
  obtain ⟨hw, rfl⟩ := written_eq_ok_iff.mp hparts
  have hread : ∀ r ∈ rs, r.Readable := fun r hr => ⟨hfields r hr, (hw r hr).size⟩
  have hflat : ∀ rs : List Record, (rs.map Record.encode).flatten = logOf rs :=
    fun rs => List.flatMap_def.symm
  have hpre := wholeRecords_isPrefix rs n
  have hle : (logOf (wholeRecords rs n)).length ≤ n := recordFraming.length_encodeAll_whole_le rs n
  have hmax : ∀ r rest, rs = wholeRecords rs n ++ r :: rest →
      n < (logOf (wholeRecords rs n ++ [r])).length := fun r rest h => recordFraming.whole_maximal h
  have hrec := recover_take hread Live.init n
  generalize wholeRecords rs n = kept at hpre hle hmax hrec
  obtain ⟨lost, rfl⟩ := hpre
  have hkept : ((kept ++ lost).map Record.encode).take kept.length = kept.map Record.encode := by
    rw [← List.map_take, List.take_left]
  refine ⟨kept, lost, rfl, ?_, ?_, ?_, ?_⟩
  · rw [hkept, hflat]
    exact hle
  · rintro r rest rfl
    have hmore : ((kept ++ r :: rest).map Record.encode).take (kept.length + 1) =
        (kept ++ [r]).map Record.encode := by
      rw [← List.map_take, List.take_length_add_append]
      rfl
    rw [hmore, hflat]
    exact hmax r rest rfl
  · rw [hkept, hflat, hflat]
    exact hrec
  · rw [hkept, hflat]
    exact recover_logOf (fun r hr => hread r (List.mem_append_left _ hr)) Live.init

/-- A batch and its acknowledgement, with the crash inside the acknowledgement. -/
theorem recover_crash_prefix_torn_ack :
    let rs : List Record := [.batch [⟨[110], 1, 2, [34, 34], ⟨5, 0, 1⟩, ⟨0, 0, []⟩⟩], .ack 1]
    ∃ kept lost, rs = kept ++ lost ∧
      (((rs.map Record.encode).take kept.length).flatten.length ≤ 70) ∧
      (∀ r rest, lost = r :: rest →
        70 < ((rs.map Record.encode).take (kept.length + 1)).flatten.length) ∧
      recover Live.init ((rs.map Record.encode).flatten.take 70) =
        .ok (Live.init.replayAll kept, ((rs.map Record.encode).take kept.length).flatten) ∧
      recover Live.init ((rs.map Record.encode).take kept.length).flatten =
        .ok (Live.init.replayAll kept, ((rs.map Record.encode).take kept.length).flatten) := by
  intro rs
  refine recover_crash_prefix rs _ 70 (written_eq_ok_iff.mpr ⟨?_, rfl⟩) ?_
  · intro r hr
    simp only [rs, List.mem_cons, List.not_mem_nil, or_false] at hr
    rcases hr with rfl | rfl
    · exact ⟨by decide, by decide, by decide⟩
    · exact ⟨by decide, by decide, by decide⟩
  · intro r hr
    simp only [rs, List.mem_cons, List.not_mem_nil, or_false] at hr
    rcases hr with rfl | rfl
    · decide
    · decide

/-! ## What the writer accepts and the reader refuses -/

/-- The records that `recover` decodes from a file. -/
def decodeLog (file : Bytes) : Except Err (List Record) :=
  (scanLog scanRecord (collect decodeBody) .corruptWal file.length [] file).map Prod.fst

/-- Recovery replays the records it decodes, and fails only if they cannot be decoded. -/
theorem recover_decodeLog (self : Live) (file : Bytes) :
    (recover self file).map Prod.fst = (decodeLog file).map self.replayAll := by
  have h := scanLog_collect scanRecord replayBody_eq .corruptWal self file.length [] file
  rw [recover_eq]
  rw [List.foldl_nil] at h
  rw [h, decodeLog]
  cases scanLog scanRecord (collect decodeBody) .corruptWal file.length [] file <;> rfl

theorem foldlM_collect_decodeBody {rs : List Record} (h : ∀ r ∈ rs, r.Writable) (acc : List Record) :
    (rs.map Record.body).foldlM (collect decodeBody) acc =
      if ∀ r ∈ rs, ∀ m ∈ r.mutations, m.FieldsOk then .ok (acc ++ rs) else .error .corruptWal := by
  induction rs generalizing acc with
  | nil => simp [pure, Except.pure]
  | cons r rs ih =>
    have hr : r.Writable := h r (by simp)
    rw [List.map_cons, List.foldlM_cons]
    by_cases hf : ∀ m ∈ r.mutations, m.FieldsOk
    · have hstep : collect decodeBody acc r.body = .ok (acc ++ [r]) := by
        rw [collect, decodeBody_readable ⟨hf, hr.size⟩]
        rfl
      rw [hstep]
      change (rs.map Record.body).foldlM (collect decodeBody) (acc ++ [r]) = _
      rw [ih (fun r' hr' => h r' (by simp [hr']))]
      by_cases hrest : ∀ r ∈ rs, ∀ m ∈ r.mutations, m.FieldsOk
      · rw [if_pos hrest, if_pos (by simpa using ⟨hf, hrest⟩), List.append_assoc, List.singleton_append]
      · rw [if_neg hrest, if_neg fun hall => hrest fun r' hr' => hall r' (by simp [hr'])]
    · have hstep : collect decodeBody acc r.body = .error .corruptWal := by
        rw [collect, decodeBody_too_large hr hf]
        rfl
      rw [hstep, if_neg fun hall => hf (hall r (by simp))]
      rfl

/-- The records of a written log are decoded, or the log is refused as corrupt. -/
theorem decodeLog_written {rs : List Record} (h : ∀ r ∈ rs, r.Writable) :
    decodeLog (logOf rs) =
      if ∀ r ∈ rs, ∀ m ∈ r.mutations, m.FieldsOk then .ok rs else .error .corruptWal := by
  have hscan := recordFraming.scanLog_encodeAll (collect decodeBody) .corruptWal []
    (fun r hr => (h r hr).size) (Nat.le_refl _)
  have hfold := foldlM_collect_decodeBody h []
  unfold decodeLog
  change (scanLog recordFraming.scan _ _ (recordFraming.encodeAll rs).length []
    (recordFraming.encodeAll rs)).map _ = _
  rw [hscan]
  change (Except.map _ ((rs.map Record.body).foldlM (collect decodeBody) [])).map _ = _
  rw [hfold, List.nil_append]
  split_ifs <;> rfl

/-- A written log that can be recovered is within the reader's limits. -/
theorem readable_of_recover {rs : List Record} (h : ∀ r ∈ rs, r.Writable) {self : Live} {p : Live × Bytes}
    (hrec : recover self (logOf rs) = .ok p) : ∀ r ∈ rs, r.Readable := by
  have hdec := recover_decodeLog self (logOf rs)
  rw [decodeLog_written h, hrec] at hdec
  by_cases hf : ∀ r ∈ rs, ∀ m ∈ r.mutations, m.FieldsOk
  · exact fun r hr => ⟨hf r hr, (h r hr).size⟩
  · rw [if_neg hf] at hdec
    cases hdec

/-- **The reader accepts what the writer wrote iff every byte field is within the reader's limit**: the
writer checks the size of the record only. -/
theorem recover_written_iff (rs : List Record) (parts : List Bytes) (h : written rs = .ok parts) :
    (recover Live.init parts.flatten ≠ .error .corruptWal ∧ decodeLog parts.flatten = .ok rs) ↔
      ∀ r ∈ rs, ∀ m ∈ r.mutations, m.FieldsOk := by
  obtain ⟨hw, rfl⟩ := written_eq_ok_iff.mp h
  have hflat : (rs.map Record.encode).flatten = logOf rs := List.flatMap_def.symm
  have hrec := recover_decodeLog Live.init (logOf rs)
  rw [hflat]
  rw [decodeLog_written hw] at hrec ⊢
  constructor
  · rintro ⟨-, hdec⟩
    by_contra hno
    rw [if_neg hno] at hdec
    cases hdec
  · intro hf
    rw [if_pos hf] at hrec ⊢
    refine ⟨fun hbad => ?_, rfl⟩
    rw [hbad] at hrec
    cases hrec

/-- A batch and an acknowledgement within the limits. -/
theorem recover_written_small :
    let rs : List Record := [.batch [⟨[110], 1, 2, [34, 34], ⟨5, 0, 1⟩, ⟨0, 0, []⟩⟩], .ack 1]
    recover Live.init (rs.map Record.encode).flatten ≠ .error .corruptWal ∧
      decodeLog (rs.map Record.encode).flatten = .ok rs := by
  intro rs
  have hrs : ∀ r ∈ rs, r.Readable := by
    intro r hr
    simp only [rs, List.mem_cons, List.not_mem_nil, or_false] at hr
    rcases hr with rfl | rfl
    · exact ⟨by decide, by decide⟩
    · exact ⟨by decide, by decide⟩
  exact (recover_written_iff rs _ (written_eq_ok_iff.mpr ⟨fun r hr => (hrs r hr).writable, rfl⟩)).mpr
    fun r hr => (hrs r hr).fields

/-- A batch of one mutation whose value is one byte longer than the reader's limit. -/
def oversizedMutation : FactMutation :=
  ⟨[110], 1, 2, List.replicate (maxFieldSize + 1) 32, ⟨5, 0, 1⟩, ⟨0, 0, []⟩⟩

/-- The writer writes it and the reader refuses the log. -/
theorem recover_oversized : ∃ bytes, writeBatch [oversizedMutation] = .ok bytes ∧
    recover Live.init bytes = .error .corruptWal := by
  have hlen : oversizedMutation.value.length = maxFieldSize + 1 := List.length_replicate
  have hpayload : (Record.batch [oversizedMutation]).payload.length =
      4 + (44 + 1 + (maxFieldSize + 1) + 0) := by
    simp only [Record.payload, List.flatMap_cons, List.flatMap_nil, List.append_nil, List.length_append,
      length_leBytes, FactMutation.length_encode, hlen]
    rfl
  have hw : (Record.batch [oversizedMutation]).Writable := by
    refine ⟨fun m hm => ?_, by decide, ?_⟩
    · obtain rfl := List.mem_singleton.mp hm
      refine ⟨by decide, ?_, by decide⟩
      rw [hlen]
      decide
    · rw [hpayload]
      decide
  have hno : ¬ ∀ r ∈ [Record.batch [oversizedMutation]], ∀ m ∈ r.mutations, m.FieldsOk := by
    intro hall
    have hm : oversizedMutation.FieldsOk :=
      hall (.batch [oversizedMutation]) (by simp) _ (by simp [Record.mutations])
    have hf : oversizedMutation.value.length ≤ maxFieldSize := hm.2.1
    rw [hlen] at hf
    exact Nat.not_succ_le_self _ hf
  have hwrite : (Record.batch [oversizedMutation]).write =
      .ok (Record.batch [oversizedMutation]).encode := (Record.write_ok_iff _ _).mpr ⟨hw, rfl⟩
  refine ⟨(Record.batch [oversizedMutation]).encode, hwrite, ?_⟩
  have hlog : logOf [Record.batch [oversizedMutation]] = (Record.batch [oversizedMutation]).encode := by
    simp [logOf]
  have hdec : decodeLog (logOf [Record.batch [oversizedMutation]]) = .error .corruptWal := by
    rw [decodeLog_written (by simpa using hw), if_neg hno]
  have hrec := recover_decodeLog Live.init (logOf [Record.batch [oversizedMutation]])
  rw [hdec, hlog] at hrec
  cases hr : recover Live.init (Record.batch [oversizedMutation]).encode with
  | error e => rw [hr] at hrec; cases hrec; rfl
  | ok s => rw [hr] at hrec; cases hrec

end Slung.Wal
