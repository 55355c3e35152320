import SkAsync.Library.OpenFile
import SkAsync.Posix.UniqueFd

/-!
# File channels

Opening a file channel translates its flags to those of `::open`, and writing to it
passes the block on to `::write`.  The operating system keeps the contents of the
files and, for every open descriptor, a cursor.

The flag `append` is accepted but translated to nothing, and no position is ever
set: what is written replaces the start of the file.
-/

namespace SkAsync.Posix

open SkAsync.Library

/-! ## The operating system -/

/-- `EBADF`. -/
def ebadf : Errno :=
  ⟨9, by decide, by decide⟩

/-- `EEXIST`. -/
def eexist : Errno :=
  ⟨17, by decide, by decide⟩

/-- `O_RDONLY`, `O_WRONLY` and `O_RDWR`. -/
inductive Access
  | readOnly
  | writeOnly
  | readWrite
  deriving DecidableEq, Repr

/-- The flags of `::open`: the access, and `O_CREAT`, `O_EXCL`, `O_TRUNC` and `O_APPEND`. -/
structure OpenFlags where
  access : Access
  creat : Bool
  excl : Bool
  trunc : Bool
  append : Bool
  deriving DecidableEq, Repr

/-- An open file description. -/
structure Description where
  path : String
  access : Access
  cursor : Cursor
  deriving DecidableEq, Repr

/-- The files by name and what is open by descriptor. -/
structure FileSystem where
  files : String → Option (List UInt8)
  opened : Int → Option Description

namespace FileSystem

/-- An open that nothing forbids: the outcome is a new descriptor, with the cursor at the
start of the file, or a failure that the system decides on. -/
def grant (system : FileSystem) (path : String) (flags : OpenFlags) (content : List UInt8) :
    Outcome → Outcome × FileSystem
  | .failure error => (.failure error, system)
  | .success fd =>
      (.success fd,
        { files := Function.update system.files path (some content)
          opened := Function.update system.opened fd
            (some ⟨path, flags.access, ⟨0, flags.append⟩⟩) })

/-- `::open`.  The mode does not matter to what follows. -/
def openFile (system : FileSystem) (path : String) (flags : OpenFlags) (_mode : Nat)
    (answer : Outcome) : Outcome × FileSystem :=
  match system.files path with
  | none => if flags.creat then system.grant path flags [] answer else (.failure enoent, system)
  | some content =>
      if flags.creat && flags.excl then (.failure eexist, system)
      else system.grant path flags (if flags.trunc then [] else content) answer

/-- `::write`.  Of the block, as much is written as the system accepts. -/
def write (system : FileSystem) (fd : Int) (block : List UInt8) (answer : Outcome) :
    Outcome × FileSystem :=
  match system.opened fd with
  | none => (.failure ebadf, system)
  | some description =>
      if description.access = .readOnly then (.failure ebadf, system)
      else
        match answer with
        | .failure error => (.failure error, system)
        | .success accepted =>
            let (content, cursor) := description.cursor.write 0
              ((system.files description.path).getD []) (block.take accepted)
            (.success (block.take accepted).length,
              { files := Function.update system.files description.path (some content)
                opened := Function.update system.opened fd (some { description with cursor }) })

end FileSystem

/-! ## Flags -/

/-- `fileflag` and `fileflag::flagset`: the bits of a `uint_fast16_t`. -/
abbrev FlagSet := Nat

namespace FileFlags

/-- `fileflags::write`: open the file for writing. -/
def write : FlagSet := 1 <<< 0

/-- `fileflags::read`: open the file for reading. -/
def read : FlagSet := 1 <<< 1

/-- `fileflags::trunc`: truncate it. -/
def trunc : FlagSet := 1 <<< 2

/-- `fileflags::append`: seek to the end. -/
def append : FlagSet := 1 <<< 3

/-- `fileflags::create_new`: allow creating a new file. -/
def createNew : FlagSet := 1 <<< 4

/-- `fileflags::open_existing`: allow opening an existing file. -/
def openExisting : FlagSet := 1 <<< 5

end FileFlags

/-- `is_set`. -/
def isSet (a b : FlagSet) : Bool :=
  (a &&& b) != 0

/-- `any_set`. -/
def anySet (a b : FlagSet) : Bool :=
  (a &&& b) != 0

/-- A flag is in a union when it is in one of the parts. -/
theorem isSet_or (first second flag : FlagSet) :
    isSet (first ||| second) flag = (isSet first flag || isSet second flag) := by
  simp only [isSet, Nat.and_or_distrib_right]
  rw [Bool.eq_iff_iff]
  simp only [Bool.or_eq_true, bne_iff_ne, ne_eq, Nat.or_eq_zero_iff]
  exact Decidable.not_and_iff_or_not

/-- Of two flags, one is set when the first is or the second is. -/
theorem anySet_or (flags first second : FlagSet) :
    anySet flags (first ||| second) = (isSet flags first || isSet flags second) := by
  simp only [anySet, isSet, Nat.and_or_distrib_left]
  rw [Bool.eq_iff_iff]
  simp only [Bool.or_eq_true, bne_iff_ne, ne_eq, Nat.or_eq_zero_iff]
  exact Decidable.not_and_iff_or_not

/-! ## The channel -/

/-- The errors of a file channel. -/
inductive ChannelError
  | channelAlreadyOpen
  | filechannelInvalidFlags
  | system (code : ErrorCode)
  deriving DecidableEq, Repr

/-- `filechannel_base`, the base of all file channels. -/
structure FileChannel where
  fd : UniqueFd
  deriving DecidableEq, Repr

namespace FileChannel

/-- A channel that is not open. -/
def closed : FileChannel :=
  ⟨.empty⟩

/-- `is_open`. -/
def isOpen (self : FileChannel) : Bool :=
  self.fd.isValid

/-- `_make_flags`: the flags of `::open`, or nothing for flags that are not valid. -/
def makeFlags (flags : FlagSet) : Option OpenFlags :=
  -- Must specify either read or write.
  if !anySet flags (FileFlags.read ||| FileFlags.write) then none
  -- Read access only
  else if isSet flags FileFlags.read && !isSet flags FileFlags.write then
    if anySet flags (FileFlags.trunc ||| FileFlags.append ||| FileFlags.createNew) then none
    else some ⟨.readOnly, false, false, false, false⟩
  -- Write access or read-write access
  else if isSet flags FileFlags.write then
    if !anySet flags (FileFlags.createNew ||| FileFlags.openExisting) then none
    else
      let access := if isSet flags FileFlags.read then Access.readWrite else .writeOnly
      let openFlags : OpenFlags := ⟨access, false, false, false, false⟩
      if isSet flags FileFlags.createNew && !isSet flags FileFlags.openExisting then
        some { openFlags with creat := true, excl := true }
      else if isSet flags FileFlags.createNew && isSet flags FileFlags.openExisting then
        if isSet flags FileFlags.trunc then some { openFlags with creat := true, trunc := true }
        else some { openFlags with creat := true }
      else if !isSet flags FileFlags.createNew && isSet flags FileFlags.openExisting then
        if isSet flags FileFlags.trunc then some { openFlags with trunc := true }
        else some openFlags
      else some openFlags
  else none

/-- `base_open`: the result, the channel and the system afterwards.  `async_base_open` does
the same and has a worker call `::open`. -/
def baseOpen (self : FileChannel) (system : FileSystem) (path : String) (flags : FlagSet)
    (answer : Outcome) : Except ChannelError Unit × FileChannel × FileSystem :=
  if self.isOpen then (.error .channelAlreadyOpen, self, system)
  else
    match makeFlags flags with
    | none => (.error .filechannelInvalidFlags, self, system)
    | some openFlags =>
        if path.toList.contains '\x00' then (.error (.system ⟨enoent.value⟩), self, system)
        else
          match system.openFile path openFlags 0o777 answer with
          | (.failure error, system) => (.error (.system ⟨error.value⟩), self, system)
          -- The channel is not open, so `assign` closes nothing.
          | (.success fd, system) => (.ok (), ⟨(self.fd.assign fd (.success 0)).2⟩, system)

/-- `seqfilechannel_base::seq_open`. -/
def seqOpen (self : FileChannel) (system : FileSystem) (path : String) (flags : FlagSet)
    (answer : Outcome) : Except ChannelError Unit × FileChannel × FileSystem :=
  self.baseOpen system path flags answer

/-- `seqfilechannel_base::write_some`. -/
def writeSome (build : Build) (self : FileChannel) (system : FileSystem) (block : List UInt8)
    (answer : Outcome) : Except Fault (Except ChannelError Int × FileSystem) := do
  skCheck build self.isOpen "attempt to read on a closed channel"
  let (ret, system) := system.write self.fd.fd block answer
  if ret.returned < 0 then pure (.error (.system ⟨ret.errno⟩), system)
  else pure (.ok ret.returned, system)

end FileChannel

/-- The two sequential file channels that can be written to. -/
inductive SeqFileChannel
  | oseqfilechannel
  | seqfilechannel
  deriving DecidableEq, Repr

/-- `oseqfilechannel::open` and `seqfilechannel::open`. -/
def SeqFileChannel.open (kind : SeqFileChannel) (self : FileChannel) (system : FileSystem)
    (path : String) (flags : FlagSet) (answer : Outcome) :
    Except ChannelError Unit × FileChannel × FileSystem :=
  match kind with
  | .oseqfilechannel =>
      if isSet flags FileFlags.read then (.error .filechannelInvalidFlags, self, system)
      else self.seqOpen system path (flags ||| FileFlags.write) answer
  | .seqfilechannel =>
      self.seqOpen system path (flags ||| (FileFlags.read ||| FileFlags.write)) answer

/-! ## Opening -/

namespace FileChannel

/-- The flags of `::open` for a file that is opened for writing. -/
theorem makeFlags_of_write {flags : FlagSet} (writes : isSet flags FileFlags.write = true)
    (chosen : (isSet flags FileFlags.createNew || isSet flags FileFlags.openExisting) = true) :
    makeFlags flags = some
      { access := if isSet flags FileFlags.read then .readWrite else .writeOnly
        creat := isSet flags FileFlags.createNew
        excl := isSet flags FileFlags.createNew && !isSet flags FileFlags.openExisting
        trunc := isSet flags FileFlags.openExisting && isSet flags FileFlags.trunc
        append := false } := by
  unfold makeFlags
  simp only [anySet_or, writes, chosen, Bool.or_true, Bool.not_true,
    Bool.and_false, Bool.false_eq_true, if_false, if_true]
  cases createNew : isSet flags FileFlags.createNew with
  | false =>
      rw [createNew, Bool.false_or] at chosen
      cases trunc : isSet flags FileFlags.trunc with
      | false => simp [chosen]
      | true => simp [chosen]
  | true =>
      cases openExisting : isSet flags FileFlags.openExisting with
      | false => simp
      | true =>
          cases trunc : isSet flags FileFlags.trunc with
          | false => simp
          | true => simp

/-- Whatever the flags, `O_APPEND` is not among those of `::open`. -/
theorem makeFlags_append {flags : FlagSet} {openFlags : OpenFlags}
    (made : makeFlags flags = some openFlags) : openFlags.append = false := by
  unfold makeFlags at made
  split_ifs at made <;> cases made <;> rfl

end FileChannel

/-- A file with this content is open at a descriptor, by a description with this access and
this cursor. -/
structure FileSystem.IsOpen (system : FileSystem) (fd : Int) (path : String) (access : Access)
    (cursor : Cursor) (content : List UInt8) : Prop where
  opened_eq : system.opened fd = some ⟨path, access, cursor⟩
  files_eq : system.files path = some content

/-- An open that is granted starts at the beginning of the file. -/
theorem FileSystem.grant_isOpen {system system' : FileSystem} {path : String} {flags : OpenFlags}
    {content : List UInt8} {answer : Outcome} {fd : Nat}
    (granted : system.grant path flags content answer = (.success fd, system')) :
    system'.IsOpen fd path flags.access ⟨0, flags.append⟩ content := by
  cases answer with
  | failure error => cases granted
  | success fd' =>
      cases granted
      exact ⟨Function.update_self .., Function.update_self ..⟩

/-- An open of an existing file that succeeds leaves its content, unless it is truncated. -/
theorem FileSystem.openFile_isOpen {system system' : FileSystem} {path : String}
    {flags : OpenFlags} {mode fd : Nat} {answer : Outcome} {content : List UInt8}
    (existing : system.files path = some content)
    (succeeded : system.openFile path flags mode answer = (.success fd, system')) :
    system'.IsOpen fd path flags.access ⟨0, flags.append⟩
      (if flags.trunc then [] else content) := by
  rw [openFile, existing] at succeeded
  dsimp only at succeeded
  by_cases exclusive : (flags.creat && flags.excl) = true
  · rw [if_pos exclusive] at succeeded
    cases succeeded
  · rw [if_neg exclusive] at succeeded
    exact grant_isOpen succeeded

/-- A write that is accepted as a whole is a write at the cursor. -/
theorem FileSystem.write_isOpen {system : FileSystem} {fd : Int} {path : String} {access : Access}
    {cursor : Cursor} {content : List UInt8} (isOpen : system.IsOpen fd path access cursor content)
    (writable : access ≠ .readOnly) (block : List UInt8) :
    ∃ system', system.write fd block (.success block.length) = (.success block.length, system') ∧
      system'.IsOpen fd path access (cursor.write 0 content block).2
        (cursor.write 0 content block).1 := by
  rcases isOpen with ⟨opened_eq, files_eq⟩
  refine ⟨⟨Function.update system.files path (some (cursor.write 0 content block).1),
    Function.update system.opened fd (some ⟨path, access, (cursor.write 0 content block).2⟩)⟩,
    ?_, Function.update_self .., Function.update_self ..⟩
  simp only [write, opened_eq, files_eq, writable, if_false, List.take_length, Option.getD_some]

namespace FileChannel

/-- What a successful open did. -/
theorem baseOpen_eq_ok {self channel : FileChannel} {system system' : FileSystem} {path : String}
    {flags : FlagSet} {answer : Outcome}
    (opened : self.baseOpen system path flags answer = (.ok (), channel, system')) :
    ∃ openFlags fd, makeFlags flags = some openFlags ∧
      system.openFile path openFlags 0o777 answer = (.success fd, system') ∧
      channel = ⟨⟨fd⟩⟩ := by
  unfold baseOpen at opened
  by_cases already : self.isOpen = true
  · rw [if_pos already] at opened
    cases opened
  rw [if_neg already] at opened
  cases made : makeFlags flags with
  | none =>
      rw [made] at opened
      cases opened
  | some openFlags =>
      rw [made] at opened
      dsimp only at opened
      by_cases broken : path.toList.contains '\x00' = true
      · rw [if_pos broken] at opened
        cases opened
      rw [if_neg broken] at opened
      rcases outcome : system.openFile path openFlags 0o777 answer with ⟨fd | error, after⟩
      · rw [outcome] at opened
        cases opened
        exact ⟨openFlags, fd, rfl, outcome, rfl⟩
      · rw [outcome] at opened
        cases opened

/-- A write that is accepted as a whole, on the channel. -/
theorem writeSome_isOpen (build : Build) {system : FileSystem} {fd : Nat} {path : String}
    {access : Access} {cursor : Cursor} {content : List UInt8}
    (isOpen : system.IsOpen fd path access cursor content) (writable : access ≠ .readOnly)
    (block : List UInt8) :
    ∃ system', writeSome build ⟨⟨fd⟩⟩ system block (.success block.length) =
        .ok (.ok block.length, system') ∧
      system'.IsOpen fd path access (cursor.write 0 content block).2
        (cursor.write 0 content block).1 := by
  rcases system.write_isOpen isOpen writable block with ⟨system', written, isOpen'⟩
  have ne_invalid : (fd : Int) ≠ -1 := by omega
  have valid : (FileChannel.mk ⟨fd⟩).isOpen = true := decide_eq_true ne_invalid
  refine ⟨system', ?_, isOpen'⟩
  have returned : ¬ ((Outcome.success block.length).returned < 0) :=
    Int.not_lt.mpr (Int.natCast_nonneg _)
  rw [writeSome, skCheck_of valid, ok_bind, written]
  dsimp only
  rw [if_neg returned]
  rfl

/-! ## Appending -/

/-- `write_some` as a step of the system, on a block and what `::write` answers. -/
def writeStep (build : Build) (self : FileChannel) (system : FileSystem)
    (call : List UInt8 × Outcome) : Except Fault (Except ChannelError Int × FileSystem) :=
  self.writeSome build system call.1 call.2

/-- A block and the answer that it is accepted as a whole. -/
def accepted (block : List UInt8) : List UInt8 × Outcome :=
  (block, .success block.length)

/-- Blocks that are accepted as a whole are written from the cursor on. -/
theorem run_writeStep (build : Build) {system : FileSystem} {fd : Nat} {path : String}
    {access : Access} {cursor : Cursor} {content : List UInt8}
    (isOpen : system.IsOpen fd path access cursor content) (writable : access ≠ .readOnly)
    (blocks : List (List UInt8)) :
    ∃ final, run (writeStep build ⟨⟨fd⟩⟩) system (blocks.map accepted) =
        .ok (blocks.map fun block => .ok (block.length : Int), final) ∧
      final.files path = some (cursor.writeAll 0 content blocks).1 := by
  induction blocks generalizing system cursor content with
  | nil => exact ⟨system, rfl, isOpen.files_eq⟩
  | cons block blocks ih =>
      rcases writeSome_isOpen build isOpen writable block with ⟨next, written, isOpen'⟩
      rcases ih isOpen' with ⟨final, ran, files_eq⟩
      exact ⟨final, run_cons_eq_ok_iff.mpr ⟨_, next, _, written, ran, rfl⟩, files_eq⟩

end FileChannel

namespace SeqFileChannel

/-- The flags that the type of a channel implies. -/
def implied : SeqFileChannel → FlagSet
  | .oseqfilechannel => FileFlags.write
  | .seqfilechannel => FileFlags.read ||| FileFlags.write

/-- A successful open is one with the implied flags added. -/
theorem baseOpen_of_open {kind : SeqFileChannel} {self channel : FileChannel}
    {system system' : FileSystem} {path : String} {flags : FlagSet} {answer : Outcome}
    (opened : kind.open self system path flags answer = (.ok (), channel, system')) :
    self.baseOpen system path (flags ||| kind.implied) answer = (.ok (), channel, system') := by
  cases kind with
  | oseqfilechannel =>
      by_cases reads : isSet flags FileFlags.read = true
      · rw [SeqFileChannel.open, if_pos reads] at opened
        cases opened
      · rw [SeqFileChannel.open, if_neg reads] at opened
        exact opened
  | seqfilechannel => exact opened

/-- A successful open of an existing file that is not truncated leaves its content, and a
cursor at its start. -/
theorem open_isOpen {kind : SeqFileChannel} {self channel : FileChannel}
    {system system' : FileSystem} {path : String} {flags : FlagSet} {answer : Outcome}
    {content : List UInt8} (existing : system.files path = some content)
    (openExisting : isSet flags FileFlags.openExisting = true)
    (notTrunc : isSet flags FileFlags.trunc = false)
    (opened : kind.open self system path flags answer = (.ok (), channel, system')) :
    ∃ (fd : Nat) (access : Access), channel = ⟨⟨fd⟩⟩ ∧ access ≠ .readOnly ∧
      system'.IsOpen fd path access ⟨0, false⟩ content := by
  have writes : isSet (flags ||| kind.implied) FileFlags.write = true := by
    rw [isSet_or, Bool.or_eq_true]
    right
    cases kind <;> rfl
  have mayExist : isSet (flags ||| kind.implied) FileFlags.openExisting = true := by
    rw [isSet_or, openExisting, Bool.true_or]
  have keeps : isSet (flags ||| kind.implied) FileFlags.trunc = false := by
    rw [isSet_or, notTrunc, Bool.false_or]
    cases kind <;> rfl
  rcases FileChannel.baseOpen_eq_ok (baseOpen_of_open opened) with
    ⟨openFlags, fd, made, succeeded, rfl⟩
  have isOpen := FileSystem.openFile_isOpen existing succeeded
  rw [FileChannel.makeFlags_of_write writes (by rw [mayExist, Bool.or_true])] at made
  cases made
  rw [keeps, Bool.and_false] at isOpen
  refine ⟨fd, _, rfl, ?_, isOpen⟩
  dsimp only
  split_ifs <;> exact Access.noConfusion

/-- Blocks that are accepted as a whole, written to an existing file that was opened without
`trunc`, replace its start. -/
theorem open_overwrites (build : Build) {kind : SeqFileChannel} {self channel : FileChannel}
    {system system' : FileSystem} {path : String} {flags : FlagSet} {answer : Outcome}
    {content : List UInt8} (existing : system.files path = some content)
    (openExisting : isSet flags FileFlags.openExisting = true)
    (notTrunc : isSet flags FileFlags.trunc = false)
    (opened : kind.open self system path flags answer = (.ok (), channel, system'))
    (blocks : List (List UInt8)) :
    ∃ final, run (channel.writeStep build) system' (blocks.map FileChannel.accepted) =
        .ok (blocks.map fun block => .ok (block.length : Int), final) ∧
      final.files path = some (overwrite 0 content 0 blocks.flatten) := by
  rcases open_isOpen existing openExisting notTrunc opened with
    ⟨fd, access, rfl, writable, isOpen⟩
  rcases FileChannel.run_writeStep build isOpen writable blocks with ⟨final, ran, files_eq⟩
  refine ⟨final, ran, ?_⟩
  rw [files_eq, Cursor.writeAll_content 0 (Nat.zero_le _)]
  rfl

/-- For every existing file, opening it with `append` and `open_existing` and without
`trunc` and then writing blocks that are accepted as a whole leaves the content followed by
the blocks exactly when there is no content or the blocks are empty. -/
theorem open_append_iff (build : Build) (kind : SeqFileChannel)
    {self channel : FileChannel} {system system' : FileSystem} {path : String} {flags : FlagSet}
    {answer : Outcome} {content : List UInt8} (existing : system.files path = some content)
    (_append : isSet flags FileFlags.append = true)
    (openExisting : isSet flags FileFlags.openExisting = true)
    (notTrunc : isSet flags FileFlags.trunc = false)
    (opened : kind.open self system path flags answer = (.ok (), channel, system'))
    (blocks : List (List UInt8)) :
    ∃ final, run (channel.writeStep build) system' (blocks.map FileChannel.accepted) =
        .ok (blocks.map fun block => .ok (block.length : Int), final) ∧
      (final.files path = some (content ++ blocks.flatten) ↔
        content = [] ∨ blocks.flatten = []) := by
  rcases open_overwrites build existing openExisting notTrunc opened blocks with
    ⟨final, ran, files_eq⟩
  refine ⟨final, ran, ?_⟩
  rw [files_eq, Option.some.injEq, overwrite_eq_append_iff 0 (Nat.zero_le _), eq_comm,
    List.length_eq_zero_iff]

/-- A system with one file. -/
def oneFile (content : List UInt8) : FileSystem :=
  ⟨fun path => if path = "log" then some content else none, fun _ => none⟩

/-- A byte appended to an empty file. -/
theorem open_append_iff_empty :
    ∃ channel system' final,
      SeqFileChannel.open .seqfilechannel .closed (oneFile []) "log"
          (FileFlags.append ||| FileFlags.openExisting) (.success 3) =
        (.ok (), channel, system') ∧
      run (channel.writeStep .debug) system' [FileChannel.accepted [9]] =
        .ok ([.ok 1], final) ∧
      final.files "log" = some [9] := by
  have opened : SeqFileChannel.open .seqfilechannel .closed (oneFile []) "log"
      (FileFlags.append ||| FileFlags.openExisting) (.success 3) = (.ok (), ⟨⟨3⟩⟩, _) := rfl
  rcases open_append_iff .debug .seqfilechannel rfl (by decide) (by decide) (by decide) opened
    [[9]] with ⟨final, ran, appended⟩
  exact ⟨_, _, final, opened, ran, appended.mpr (.inl rfl)⟩

/-- Opened with `append`, a file loses its first byte when one byte is written. -/
theorem not_open_append :
    ∃ channel system' final,
      SeqFileChannel.open .oseqfilechannel .closed (oneFile [1, 2, 3]) "log"
          (FileFlags.append ||| FileFlags.openExisting) (.success 3) =
        (.ok (), channel, system') ∧
      run (channel.writeStep .debug) system' [FileChannel.accepted [9]] =
        .ok ([.ok 1], final) ∧
      final.files "log" = some [9, 2, 3] ∧
      final.files "log" ≠ some ([1, 2, 3] ++ [9]) :=
  ⟨_, _, _, rfl, rfl, rfl, by decide +kernel⟩

end SeqFileChannel

end SkAsync.Posix
