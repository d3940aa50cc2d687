import IronBee.CTypes

/-! # Formatting a log record for the engine manager

`manager_logger_format` builds the text of one log record in a buffer of `msg_sz + 128`
bytes: the level name, the transaction's id, the source position in debug mode, then the
message. The transaction's id goes first through a 64-byte local array, with `strcpy` and
`strcat`, which bound nothing. A write past the end of an array is undefined behaviour, and
the model returns `none` for it.
-/

namespace IronBee.Engine

/-! ## The formatter -/

/-- `fmt_pad_size`, the room the buffer keeps beyond `msg_sz`. -/
def fmtPadSize : Nat := 128

def padRight (w : Nat) (s : List Char) : List Char := s ++ List.replicate (w - s.length) ' '

def padLeft (w : Nat) (s : List Char) : List Char := List.replicate (w - s.length) ' ' ++ s

/-- The loop `while (strncmp(file, "../", 3) == 0) file += 3`. -/
def stripParents : List Char → List Char
  | '.' :: '.' :: '/' :: rest => stripParents rest
  | s => s

/-- `if (flen > n) file += (flen - n)`: the last `n` characters. -/
def lastChars (n : Nat) (s : List Char) : List Char :=
  if s.length > n then s.drop (s.length - n) else s

/-- The text of `"%-10s- "` for the level name. -/
def levelText (name : List Char) : List Char := padRight 10 name ++ "- ".toList

/-- The text of `"(%23s:%-5d) "` for the file and the line. -/
def positionText (file : List Char) (line : Int) : List Char :=
  "(".toList ++ padLeft 23 (lastChars 23 (stripParents file)) ++ ":".toList ++
    padRight 5 (toString line).toList ++ ") ".toList

/-- The transaction part, built in `line_info[64]`: `strcpy` of `"[tx:"`, then `strcat` of
the id and of `"] "`. -/
def txInfo (id : List Char) : Option CBuf :=
  (CBuf.strcpy 64 "[tx:".toList).bind fun b => (b.strcat id).bind fun b => b.strcat "] ".toList

/-- The fields of `ib_logger_rec_t` the formatter reads: the transaction's id when
`rec->tx` is set, the source file when `rec->file` is set, and `rec->line_number`. -/
structure LogRec where
  txId : Option (List Char)
  file : Option (List Char)
  lineNumber : Int
  deriving DecidableEq

/-- `strcat` of the transaction part, when `rec->tx` is set. -/
def appendTx (b : CBuf) : Option (List Char) → Option CBuf
  | none => some b
  | some id => (txInfo id).bind fun li => b.strcat li.chars

/-- `strcat` of the source position, when there is a file, a positive line number and the
logger's level is at least `IB_LOG_DEBUG`; it is formatted in `line_info[35]`. -/
def appendPosition (b : CBuf) (rec : LogRec) (debug : Bool) : Option CBuf :=
  match rec.file with
  | some file =>
    if 0 < rec.lineNumber ∧ debug = true then
      (CBuf.snprintf 35 35 (positionText file (toCInt rec.lineNumber))).bind fun li =>
        b.strcat li.chars
    else some b
  | none => some b

/-- The text built in the record's buffer of `buffer_sz + 1` bytes, `buffer_sz` being
`msg_sz + fmt_pad_size`, or `none` at a write past an array. -/
def formatText (levelName : List Char) (rec : LogRec) (debug : Bool) (msg : List Char)
    (msgSz : Nat) : Option (List Char) :=
  let bufferSz := toSize (msgSz + fmtPadSize)
  (CBuf.snprintf (toSize (bufferSz + 1)) bufferSz (levelText levelName)).bind fun b =>
    (appendTx b rec.txId).bind fun b =>
      (appendPosition b rec debug).bind fun b => (b.strcat msg).map CBuf.chars

/-- What the formatter learns from the manager and the C library: the acquire status, whether its
logger is at `IB_LOG_DEBUG`, each `malloc`'s success, and the level's name. -/
structure FormatEnv where
  acquire : Status
  managerDebug : Bool
  engineDebug : Bool
  recordAlloc : Bool
  msgAlloc : Bool
  levelName : List Char
  deriving DecidableEq

/-- The `logger_level >= IB_LOG_DEBUG` test, or `none` when `ib_manager_engine_acquire`
fails with another status than `IB_ENOENT`. -/
def loggerDebug (env : FormatEnv) : Option Bool :=
  match env.acquire with
  | .enoent => some env.managerDebug
  | .ok => some env.engineDebug
  | _ => none

/-- An `ib_manager_logger_record_t`: the formatted text and `msg_sz`. -/
structure ManagerRecord where
  msg : List Char
  msgSz : Nat
  deriving DecidableEq

/-- `manager_logger_format`: its status and the record it stores, or `none` at a write past an
array; a failed acquire or text allocation goes to `cleanup`, which returns `rc`. -/
def managerLoggerFormat (env : FormatEnv) (rec : LogRec) (msg : List Char) (msgSz : Nat) :
    Option (Status × Option ManagerRecord) :=
  match loggerDebug env with
  | none => some (env.acquire, none)
  | some debug =>
    if !env.recordAlloc then some (.ealloc, none)
    else if !env.msgAlloc then some (env.acquire, none)
    else (formatText env.levelName rec debug msg msgSz).map fun text =>
      (env.acquire, some ⟨text, text.length⟩)

/-! ## What the formatter writes -/

def txPart : Option (List Char) → List Char
  | none => []
  | some id => "[tx:".toList ++ id ++ "] ".toList

/-- The transaction's id, with the text around it and the NUL, does not fit `line_info[64]`. -/
def txOverflows : Option (List Char) → Bool
  | none => false
  | some id => 57 < id.length

def positionPart (rec : LogRec) (debug : Bool) : List Char :=
  match rec.file with
  | some file =>
    if 0 < rec.lineNumber ∧ debug = true then (positionText file (toCInt rec.lineNumber)).take 34
    else []
  | none => []

theorem levelText_length {name : List Char} (h : name.length ≤ 10) :
    (levelText name).length = 12 := by
  have h2 : "- ".toList.length = 2 := rfl
  simp only [levelText, padRight, List.length_append, List.length_replicate, h2]
  omega

theorem txPart_length_le {id : Option (List Char)} (h : txOverflows id = false) :
    (txPart id).length ≤ 63 := by
  cases id with
  | none => exact Nat.zero_le _
  | some id =>
    simp only [txOverflows, decide_eq_false_iff_not, Nat.not_lt] at h
    simp only [txPart, List.length_append]
    exact Nat.add_le_add_right (Nat.add_le_add_left h _) _

theorem positionPart_length_le (rec : LogRec) (debug : Bool) :
    (positionPart rec debug).length ≤ 34 := by
  unfold positionPart
  split
  · split_ifs
    · exact List.length_take_le _ _
    · exact Nat.zero_le _
  · exact Nat.zero_le _

theorem txInfo_some {id : List Char} (h : id.length ≤ 57) :
    ∃ li, txInfo id = some li ∧ li.chars = "[tx:".toList ++ id ++ "] ".toList := by
  have h4 : "[tx:".toList.length = 4 := rfl
  have h2 : "] ".toList.length = 2 := rfl
  obtain ⟨b₀, e₀, c₀, s₀⟩ := CBuf.strcpy_some 64 (s := "[tx:".toList) (by decide)
  obtain ⟨b₁, e₁, c₁, s₁⟩ := b₀.strcat_some (s := id) (by rw [c₀, s₀, h4]; omega)
  obtain ⟨b₂, e₂, -, s₂⟩ := b₁.strcat_some (s := "] ".toList)
    (by rw [c₁, c₀, s₁, s₀, List.length_append, h4, h2]; omega)
  exact ⟨b₂, by simp only [txInfo, e₀, e₁, e₂, Option.some_bind], by rw [s₂, s₁, s₀]⟩

theorem txInfo_none {id : List Char} (h : 57 < id.length) : txInfo id = none := by
  have h4 : "[tx:".toList.length = 4 := rfl
  have h2 : "] ".toList.length = 2 := rfl
  obtain ⟨b₀, e₀, c₀, s₀⟩ := CBuf.strcpy_some 64 (s := "[tx:".toList) (by decide)
  rw [txInfo, e₀, Option.some_bind]
  by_cases hid : 4 + id.length < 64
  · obtain ⟨b₁, e₁, c₁, s₁⟩ := b₀.strcat_some (s := id) (by rw [c₀, s₀, h4]; exact hid)
    rw [e₁, Option.some_bind,
      b₁.strcat_none (by rw [c₁, c₀, s₁, s₀, List.length_append, h4, h2]; omega)]
  · rw [b₀.strcat_none (s := id) (by rw [c₀, s₀, h4]; omega), Option.none_bind]

theorem appendTx_some (b : CBuf) {id : Option (List Char)} (hid : txOverflows id = false)
    (h : b.chars.length + 63 < b.cap) :
    ∃ b', appendTx b id = some b' ∧ b'.cap = b.cap ∧ b'.chars = b.chars ++ txPart id := by
  cases id with
  | none => exact ⟨b, rfl, rfl, (List.append_nil _).symm⟩
  | some id =>
    obtain ⟨li, e, hc⟩ := txInfo_some (by simpa [txOverflows] using hid)
    obtain ⟨b', e', c', s'⟩ := b.strcat_some (s := li.chars)
      (by have := txPart_length_le hid; rw [txPart] at this; rw [hc]; omega)
    exact ⟨b', by simp only [appendTx, e, e', Option.some_bind], c', by rw [s', hc, txPart]⟩

theorem appendTx_none (b : CBuf) {id : Option (List Char)} (hid : txOverflows id = true) :
    appendTx b id = none := by
  cases id with
  | none => cases hid
  | some id =>
    simp only [appendTx, txInfo_none (by simpa [txOverflows] using hid), Option.none_bind]

theorem appendPosition_some (b : CBuf) (rec : LogRec) (debug : Bool)
    (h : b.chars.length + 34 < b.cap) :
    ∃ b', appendPosition b rec debug = some b' ∧ b'.cap = b.cap ∧
      b'.chars = b.chars ++ positionPart rec debug := by
  unfold appendPosition positionPart
  split
  next file _ =>
    split_ifs
    · obtain ⟨li, e, -, hc⟩ := CBuf.snprintf_some 35
        (positionText file (toCInt rec.lineNumber)) (by decide) le_rfl
      obtain ⟨b', e', c', s'⟩ := b.strcat_some (s := li.chars)
        (by rw [hc]; have := List.length_take_le (35 - 1) (positionText file (toCInt rec.lineNumber)); omega)
      exact ⟨b', by rw [e]; exact e', c', by rw [s', hc]⟩
    · exact ⟨b, rfl, rfl, (List.append_nil _).symm⟩
  next => exact ⟨b, rfl, rfl, (List.append_nil _).symm⟩

theorem formatText_eq {name : List Char} (rec : LogRec) (debug : Bool) {msg : List Char}
    {msgSz : Nat} (hn : name.length ≤ 10) (hm : msg.length ≤ msgSz)
    (hs : msgSz + fmtPadSize + 1 < 2 ^ 64) :
    formatText name rec debug msg msgSz =
      if txOverflows rec.txId then none
      else some (levelText name ++ txPart rec.txId ++ positionPart rec debug ++ msg) := by
  have hsz : toSize ((msgSz : Int) + fmtPadSize) = msgSz + fmtPadSize := toSize_add (by omega)
  have hcap : toSize (((msgSz + fmtPadSize : Nat) : Int) + 1) = msgSz + fmtPadSize + 1 :=
    toSize_add hs
  have hl := levelText_length hn
  obtain ⟨b₀, e₀, c₀, s₀⟩ := CBuf.snprintf_some (msgSz + fmtPadSize + 1)
    (levelText name) (n := msgSz + fmtPadSize) (by simp [fmtPadSize]) (by omega)
  rw [List.take_of_length_le (by rw [hl]; simp [fmtPadSize])] at s₀
  unfold formatText
  simp only [hsz, hcap, e₀, Option.some_bind]
  cases hov : txOverflows rec.txId
  · have ht := txPart_length_le hov
    have hp := positionPart_length_le rec debug
    obtain ⟨b₁, e₁, c₁, s₁⟩ := appendTx_some b₀ hov (by rw [c₀, s₀, hl]; simp [fmtPadSize])
    obtain ⟨b₂, e₂, c₂, s₂⟩ := appendPosition_some b₁ rec debug
      (by rw [c₁, c₀, s₁, s₀, List.length_append, hl]; simp [fmtPadSize]; omega)
    obtain ⟨b₃, e₃, -, s₃⟩ := b₂.strcat_some (s := msg)
      (by rw [c₂, c₁, c₀, s₂, s₁, s₀]; simp only [List.length_append, hl, fmtPadSize]; omega)
    simp only [e₁, e₂, e₃, Option.some_bind, Option.map_some', s₃, s₂, s₁, s₀,
      Bool.false_eq_true, if_false]
  · simp only [appendTx_none b₀ hov, Option.none_bind, if_true]

theorem loggerDebug_acquired {env : FormatEnv} {debug : Bool}
    (h : loggerDebug env = some debug) : env.acquire = .ok ∨ env.acquire = .enoent := by
  cases hacq : env.acquire <;> simp [loggerDebug, hacq] at h ⊢

/-! ## The formatter's contract -/

/-- Within the bounds on level name and message, the formatter writes past an array exactly when it
formats a record for a transaction whose id is longer than 57 characters. -/
theorem managerLoggerFormat_eq_none_iff (env : FormatEnv) (rec : LogRec) {msg : List Char}
    {msgSz : Nat} (hn : env.levelName.length ≤ 10) (hm : msg.length ≤ msgSz)
    (hs : msgSz + fmtPadSize + 1 < 2 ^ 64) :
    managerLoggerFormat env rec msg msgSz = none ↔
      (loggerDebug env).isSome ∧ env.recordAlloc ∧ env.msgAlloc ∧ txOverflows rec.txId := by
  unfold managerLoggerFormat
  cases loggerDebug env with
  | none => simp
  | some debug =>
    dsimp only
    rw [formatText_eq rec debug hn hm hs]
    cases env.recordAlloc <;> cases env.msgAlloc <;> cases txOverflows rec.txId <;> simp

theorem managerLoggerFormat_long_tx_id :
    managerLoggerFormat ⟨.ok, false, false, true, true, "INFO".toList⟩
      ⟨some (List.replicate 58 'a'), none, 0⟩ [] 0 = none :=
  (managerLoggerFormat_eq_none_iff _ _ (by decide) le_rfl (by decide)).mpr
    ⟨rfl, rfl, rfl, rfl⟩

/-- A record the formatter stores holds the padded level name, the transaction and position parts
and the whole message, with the status of `ib_manager_engine_acquire`. -/
theorem managerLoggerFormat_record (env : FormatEnv) (rec : LogRec) {msg : List Char}
    {msgSz : Nat} (hn : env.levelName.length ≤ 10) (hm : msg.length ≤ msgSz)
    (hs : msgSz + fmtPadSize + 1 < 2 ^ 64) {rc : Status} {r : ManagerRecord}
    (h : managerLoggerFormat env rec msg msgSz = some (rc, some r)) :
    rc = env.acquire ∧ (rc = .ok ∨ rc = .enoent) ∧ ∃ debug, loggerDebug env = some debug ∧
      r.msg = levelText env.levelName ++ txPart rec.txId ++ positionPart rec debug ++ msg ∧
      r.msgSz = r.msg.length := by
  unfold managerLoggerFormat at h
  cases hd : loggerDebug env with
  | none => simp [hd] at h
  | some debug =>
    rw [hd] at h
    dsimp only at h
    rw [formatText_eq rec debug hn hm hs] at h
    cases ha : env.recordAlloc <;> cases hb : env.msgAlloc <;> cases ho : txOverflows rec.txId <;>
      simp [ha, hb, ho] at h
    obtain ⟨rfl, rfl⟩ := h
    exact ⟨rfl, loggerDebug_acquired hd, debug, rfl, by simp, by simp⟩

theorem managerLoggerFormat_record_no_engine :
    ∃ rc r, managerLoggerFormat ⟨.enoent, true, false, true, true, "DEBUG".toList⟩
        ⟨some "t1".toList, some "../../engine/x.c".toList, 42⟩ "hi".toList 2 =
        some (rc, some r) ∧ rc = .enoent ∧
      r.msg = "DEBUG     - [tx:t1] (             engine/x.c:42   ) hi".toList := by
  obtain ⟨rc, r, h⟩ : ∃ rc r, managerLoggerFormat ⟨.enoent, true, false, true, true,
      "DEBUG".toList⟩ ⟨some "t1".toList, some "../../engine/x.c".toList, 42⟩ "hi".toList 2 =
      some (rc, some r) := ⟨_, _, rfl⟩
  obtain ⟨hrc, -, d, hd, hr, -⟩ :=
    managerLoggerFormat_record _ _ (by decide) (by decide) (by decide) h
  obtain rfl : d = true := (Option.some.inj hd).symm
  exact ⟨rc, r, h, hrc, hr.trans (by decide)⟩

end IronBee.Engine
