import OtaBridge.Transfer.Number

/-!
# The update request

`requestUpdate` of the servers fills its reply step by step and returns early on each error;
`conclude` is the part of the client's `main` that acts on the reply. The client looks at two of
the six fields, and after an unreadable version file these say that there is an image which is not
new (`agrees_iff`).
-/

namespace OtaBridge.Transfer

/-- The update image, as `stat` finds it. -/
inductive ImageFile where
  | absent
  | irregular
  | regular (bytes : List Byte)
  deriving DecidableEq, Repr

/-- The files of the server's update directory. -/
structure UpdateFiles where
  image : ImageFile
  version : FileState
  crc : FileState
  deriving DecidableEq, Repr

structure UpdateInfo where
  exists_ : Bool
  isNew : Bool
  newVersion : UInt32
  size : UInt64
  crc : UInt32
  resultCode : Int
  deriving DecidableEq, Repr

def fileExists : ImageFile → Bool
  | .regular _ => true
  | _ => false

def getFileSize : ImageFile → Option UInt64
  | .regular bytes => some (UInt64.ofNat bytes.length)
  | _ => none

def requestUpdate (files : UpdateFiles) (currentVersion : UInt32) : UpdateInfo :=
  let info : UpdateInfo := ⟨false, false, 0, 0, 0, -1⟩
  if ¬ fileExists files.image then { info with resultCode := -10 }
  else
    let info := { info with exists_ := true }
    match getFileSize files.image with
    | none => { info with resultCode := -11 }
    | some fileSize =>
      let info := { info with size := fileSize }
      let (ok, newVersion) := readUint32FromFile files.version 0
      if ¬ ok then { info with resultCode := -12 }
      else
        let info := { info with newVersion := newVersion }
        let (_, crc) := readUint32FromFile files.crc 0
        { info with crc := crc, isNew := newVersion > currentVersion, resultCode := 0 }

/-! ## The client -/

inductive CallStatus where
  | success
  | failure
  deriving DecidableEq, Repr

/-- What the client makes of the reply: "requestUpdate failed!", "No update on server.",
"Already up to date.", or it calls `startTransfer`. -/
inductive Conclusion where
  | requestFailed
  | noUpdate
  | upToDate
  | startTransfer
  deriving DecidableEq, Repr

def conclude (status : CallStatus) (info : UpdateInfo) : Conclusion :=
  if status ≠ .success then .requestFailed
  else if ¬ info.exists_ then .noUpdate
  else if ¬ info.isNew then .upToDate
  else .startTransfer

/-- The version the client sends. -/
def clientVersion (file : FileState) : UInt32 := (readUint32FromFile file 0).2

/-! ## Agreement -/

/-- The server read `v` from its version file. -/
def VersionRead (files : UpdateFiles) (v : UInt32) : Prop := readUint32FromFile files.version 0 = (true, v)

/-- The client with version `c` concludes what the files say. -/
structure Agrees (files : UpdateFiles) (c : UInt32) : Prop where
  transfer : conclude .success (requestUpdate files c) = .startTransfer ↔
    fileExists files.image = true ∧ ∃ v, VersionRead files v ∧ v > c
  upToDate : conclude .success (requestUpdate files c) = .upToDate →
    fileExists files.image = true ∧ ∃ v, VersionRead files v ∧ v ≤ c
  failure : (requestUpdate files c).resultCode ≠ 0 → conclude .success (requestUpdate files c) ≠ .upToDate

theorem requestUpdate_absent {files : UpdateFiles} (c : UInt32) (h : fileExists files.image = false) :
    requestUpdate files c = ⟨false, false, 0, 0, 0, -10⟩ := by
  simp [requestUpdate, h]

/-- An image whose version cannot be read is there, and not new. -/
theorem requestUpdate_unreadable (bytes : List Byte) {version : FileState} (crc : FileState) (c : UInt32)
    (h : (readUint32FromFile version 0).1 = false) :
    requestUpdate ⟨.regular bytes, version, crc⟩ c = ⟨true, false, 0, UInt64.ofNat bytes.length, 0, -12⟩ := by
  simp [requestUpdate, fileExists, getFileSize, h]

theorem requestUpdate_read {bytes : List Byte} {version crc : FileState} (c : UInt32) {v : UInt32}
    (h : readUint32FromFile version 0 = (true, v)) :
    requestUpdate ⟨.regular bytes, version, crc⟩ c =
      ⟨true, v > c, v, UInt64.ofNat bytes.length, (readUint32FromFile crc 0).2, 0⟩ := by
  simp [requestUpdate, fileExists, getFileSize, h]

/-- Without an image the client finds no update. -/
theorem agrees_absent {files : UpdateFiles} (c : UInt32) (h : fileExists files.image = false) : Agrees files c := by
  have reply := requestUpdate_absent c h
  have none : conclude .success (requestUpdate files c) = .noUpdate := by
    rw [reply]
    rfl
  refine ⟨⟨fun start => ?_, fun there => ?_⟩, fun upToDate => ?_, fun _ => ?_⟩
  · rw [none] at start
    cases start
  · rw [h] at there
    cases there.1
  · rw [none] at upToDate
    cases upToDate
  · rw [none]
    exact nofun

/-- With a version the client compares as the server did. -/
theorem agrees_read {bytes : List Byte} {version crc : FileState} (c : UInt32) {v : UInt32}
    (h : readUint32FromFile version 0 = (true, v)) : Agrees ⟨.regular bytes, version, crc⟩ c := by
  have only : ∀ w, VersionRead ⟨.regular bytes, version, crc⟩ w → w = v := fun w read =>
    congrArg Prod.snd (read.symm.trans h)
  have conclusion : conclude .success (requestUpdate ⟨.regular bytes, version, crc⟩ c) =
      if v > c then .startTransfer else .upToDate := by
    rw [requestUpdate_read c h]
    by_cases newer : v > c <;> simp [conclude, newer]
  refine ⟨⟨fun start => ?_, fun ⟨_, w, read, newer⟩ => ?_⟩, fun upToDate => ?_, fun error => ?_⟩
  · rw [conclusion] at start
    split at start
    · next newer => exact ⟨rfl, v, h, newer⟩
    · cases start
  · rw [conclusion, if_pos (only w read ▸ newer)]
  · rw [conclusion] at upToDate
    split at upToDate
    · cases upToDate
    · next same => exact ⟨rfl, v, h, UInt32.not_lt.1 same⟩
  · rw [requestUpdate_read c h] at error
    exact absurd rfl error

/-- An unreadable version looks to the client like an image that is not new. -/
theorem not_agrees_unreadable (bytes : List Byte) {version : FileState} (crc : FileState) (c : UInt32)
    (h : (readUint32FromFile version 0).1 = false) : ¬ Agrees ⟨.regular bytes, version, crc⟩ c := by
  intro agrees
  have reply := requestUpdate_unreadable bytes crc c h
  apply agrees.failure
  · rw [reply]
    exact fun e : (-12 : Int) = 0 => absurd e (by decide)
  · rw [reply]
    rfl

/-- **When reply and decision agree.** -/
theorem agrees_iff (files : UpdateFiles) (c : UInt32) :
    Agrees files c ↔ (fileExists files.image = true → (readUint32FromFile files.version 0).1 = true) := by
  obtain ⟨image, version, crc⟩ := files
  cases image with
  | absent => exact ⟨fun _ => nofun, fun _ => agrees_absent c rfl⟩
  | irregular => exact ⟨fun _ => nofun, fun _ => agrees_absent c rfl⟩
  | regular bytes =>
    by_cases read : (readUint32FromFile version 0).1 = true
    · exact ⟨fun _ _ => read, fun _ => agrees_read c (v := (readUint32FromFile version 0).2) (Prod.ext read rfl)⟩
    · have unreadable := not_agrees_unreadable bytes crc c (Bool.eq_false_iff.2 read)
      exact ⟨fun agrees => absurd agrees unreadable, fun h => absurd (h rfl) read⟩

/-- An image of one byte without a version file. -/
theorem not_agrees_no_version : ¬ Agrees ⟨.regular [0], none, none⟩ 7 := not_agrees_unreadable [0] none 7 (by decide)

end OtaBridge.Transfer
