import Tcp118.Packet.Bytes
import Mathlib.Data.List.TakeWhile

/-!
# `tcp118.c`: reading and writing files

`readFile` narrows what `fgetc` returns to a `char` before it compares it with `EOF`.  On a target
whose `char` is signed, the byte `0xFF` is narrowed to `EOF`.

* `Files`, `fgetc`: the C library's files, as far as the two functions use them;
* `readFile`, `writeFile`: the source, where `none` is a failed assertion;
* `storedBytes`, `readLoop_eq`, `readFile_eq`: what the loop stores, for every file and buffer;
* `readFile_whole_iff`: the files that are read as a whole.
-/

namespace Tcp118

/-! ### The C library -/

/-- The contents of the files that can be opened for reading, by name, and the names that can be
opened for writing. -/
structure Files where
  contents : List UInt8 → Option (List UInt8)
  writable : List UInt8 → Bool

/-- `EOF`. -/
def eof : ℤ := -1

/-- `fgetc`: the next byte as an `int`, or `EOF`, with what remains of the file. -/
def fgetc : List UInt8 → ℤ × List UInt8
  | [] => (eof, [])
  | b :: fp => (b.toNat, fp)

/-! ### The source -/

/-- The loop of `readFile`, whose `char ch` is a signed byte: `fp` is what remains of the file and
`n` the number of bytes stored.  The assertion `n < BUFLEN` bounds the number of passes. -/
def readLoop (bufLen : ℕ) (fp fileBuf : List UInt8) (n : ℕ) : Option (List UInt8 × ℕ) :=
  let ch := Int8.ofInt (fgetc fp).1
  if ch.toInt ≠ eof then
    if n < bufLen then readLoop bufLen (fgetc fp).2 (fileBuf.set n ch.toUInt8) (n + 1) else none
  else some (fileBuf, n)
termination_by bufLen - n

/-- `readFile`, with what it leaves in the memory from `fileBuf` on. -/
def readFile (files : Files) (fileName : List UInt8) (fileBuf : Option (List UInt8))
    (bufLen : ℕ) : Option (List UInt8 × ℤ) := do
  let fileBuf ← fileBuf
  let fileBuf := List.replicate bufLen 0 ++ fileBuf.drop bufLen
  match files.contents fileName with
  | none => return (fileBuf, -1)
  | some fp =>
    let (fileBuf, n) ← readLoop bufLen fp fileBuf 0
    return (fileBuf, n)

/-- `writeFile`, with the files it leaves; `fwrite` does not fail. -/
def writeFile (files : Files) (fileName : List UInt8) (fileBuf : Option (List UInt8))
    (bytes : ℕ) : Option (Files × ℤ) := do
  let fileBuf ← fileBuf
  if files.writable fileName then
    return ({ files with
      contents := fun name =>
        if name = fileName then some (fileBuf.take bytes) else files.contents name }, bytes)
  else return (files, -1)

/-! ### What is stored -/

/-- A byte keeps its value in a `char`, which is `EOF` for the byte `0xFF`. -/
theorem char_eq_eof_iff (b : UInt8) : (Int8.ofInt b.toNat).toInt = eof ↔ b = 0xFF := by
  have hlt := b.toNat_lt
  have hnat : b = 0xFF ↔ b.toNat = 255 := by rw [← UInt8.toNat_inj]; rfl
  rw [hnat, Int8.toInt_ofInt, Int.bmod_def, eof]
  simp only [Int8.size]
  split_ifs <;> omega

theorem toUInt8_char (b : UInt8) : (Int8.ofInt b.toNat).toUInt8 = b := by
  rw [Int8.ofInt_eq_ofNat, Int8.toUInt8_ofNat', UInt8.ofNat_toNat]

/-- The bytes of a file that `readFile` stores: those before the first `0xFF`. -/
def storedBytes (file : List UInt8) : List UInt8 := file.takeWhile (· ≠ 0xFF)

@[simp] theorem storedBytes_nil : storedBytes [] = [] := rfl

theorem storedBytes_cons_of_ne {b : UInt8} (h : b ≠ 0xFF) (file : List UInt8) :
    storedBytes (b :: file) = b :: storedBytes file :=
  List.takeWhile_cons_of_pos (by simpa using h)

theorem storedBytes_cons_eof (file : List UInt8) : storedBytes (0xFF :: file) = [] := rfl

/-- Everything is stored exactly if no byte is taken for `EOF`. -/
theorem storedBytes_eq_self_iff {file : List UInt8} : storedBytes file = file ↔ 0xFF ∉ file := by
  unfold storedBytes
  rw [List.takeWhile_eq_self_iff]
  constructor
  · intro h hmem
    exact absurd (h _ hmem) (by decide)
  · intro h b hb
    exact decide_eq_true fun e => h (e ▸ hb)

theorem readLoop_eof (bufLen : ℕ) {fp : List UInt8}
    (h : (Int8.ofInt (fgetc fp).1).toInt = eof) (fileBuf : List UInt8) (n : ℕ) :
    readLoop bufLen fp fileBuf n = some (fileBuf, n) := by
  rw [readLoop, if_neg (not_not.2 h)]

/-- The loop, when `done` has been stored: it fails exactly if the buffer is too short for what it
stores. -/
theorem readLoop_eq {bufLen : ℕ} (fp : List UInt8) :
    ∀ done rest, done.length ≤ bufLen → bufLen ≤ done.length + rest.length →
      readLoop bufLen fp (done ++ rest) done.length =
        if done.length + (storedBytes fp).length ≤ bufLen then
          some (done ++ storedBytes fp ++ rest.drop (storedBytes fp).length,
            done.length + (storedBytes fp).length)
        else none := by
  induction fp with
  | nil =>
    intro done rest hdone _
    rw [readLoop_eof bufLen (by decide), storedBytes_nil, if_pos (by simpa using hdone)]
    simp
  | cons b fp ih =>
    intro done rest hdone hrest
    by_cases hb : b = 0xFF
    · subst hb
      have heof : (Int8.ofInt (fgetc (0xFF :: fp)).1).toInt = eof := (char_eq_eof_iff _).2 rfl
      rw [readLoop_eof bufLen heof, storedBytes_cons_eof, if_pos (by simpa using hdone)]
      simp
    · have hne : (Int8.ofInt (fgetc (b :: fp)).1).toInt ≠ eof := (char_eq_eof_iff b).not.2 hb
      rw [readLoop, if_pos hne, storedBytes_cons_of_ne hb, List.length_cons]
      by_cases hlt : done.length < bufLen
      · -- the byte goes behind `done`
        obtain ⟨x, rest, rfl⟩ : ∃ x tail, rest = x :: tail :=
          List.exists_cons_of_ne_nil (by rintro rfl; simp at hrest; omega)
        have hset : (done ++ x :: rest).set done.length b = (done ++ [b]) ++ rest := by
          rw [List.set_append_right _ _ le_rfl, Nat.sub_self]
          simp
        rw [List.length_cons] at hrest
        have hstep := ih (done ++ [b]) rest
          (by rw [List.length_append, List.length_singleton]; omega)
          (by rw [List.length_append, List.length_singleton]; omega)
        rw [List.length_append, List.length_singleton] at hstep
        rw [if_pos hlt, fgetc, toUInt8_char, hset, hstep]
        simp only [Nat.add_assoc, Nat.add_comm 1, List.append_assoc, List.nil_append,
          List.cons_append, List.drop_succ_cons]
      · rw [if_neg hlt, if_neg (by omega)]

/-- `readFile` on a file that can be opened. -/
theorem readFile_eq {files : Files} {fileName file : List UInt8}
    (hopen : files.contents fileName = some file) (fileBuf : List UInt8) (bufLen : ℕ) :
    readFile files fileName (some fileBuf) bufLen =
      if (storedBytes file).length ≤ bufLen then
        some (storedBytes file ++ List.replicate (bufLen - (storedBytes file).length) 0 ++
          fileBuf.drop bufLen, ((storedBytes file).length : ℤ))
      else none := by
  have hloop := readLoop_eq file [] (List.replicate bufLen 0 ++ fileBuf.drop bufLen)
    (Nat.zero_le bufLen) (by simp)
  simp only [List.nil_append, List.length_nil, Nat.zero_add] at hloop
  unfold readFile
  simp only [hopen, Option.bind_eq_bind, Option.bind_some, Option.pure_def, hloop]
  split_ifs with hfits
  · rw [List.drop_append_of_le_length (by simpa using hfits), List.drop_replicate,
      List.append_assoc]
    rfl
  · rfl

/-! ### Whole files -/

/-- `readFile` returns the length of the file and leaves its bytes, followed by zeros, in the
buffer; and `writeFile` of what it returns reproduces the file. -/
structure ReadsWhole (files : Files) (fileName file fileBuf : List UInt8) (bufLen : ℕ) : Prop where
  read : readFile files fileName (some fileBuf) bufLen =
    some (file ++ List.replicate (bufLen - file.length) 0 ++ fileBuf.drop bufLen,
      (file.length : ℤ))
  write : ∀ fileBuf' n, readFile files fileName (some fileBuf) bufLen = some (fileBuf', n) →
    ∀ name, files.writable name = true →
      ∃ files', writeFile files name (some fileBuf') n.toNat = some (files', n) ∧
        files'.contents name = some file

/-- What has been read is written back. -/
theorem writeFile_of_read {files : Files} {name : List UInt8} (h : files.writable name = true)
    (file rest : List UInt8) :
    ∃ files', writeFile files name (some (file ++ rest)) file.length =
        some (files', (file.length : ℤ)) ∧ files'.contents name = some file := by
  unfold writeFile
  simp only [Option.bind_eq_bind, Option.bind_some, h, if_true, Option.pure_def,
    List.take_left]
  exact ⟨_, rfl, if_pos rfl⟩

/-- **`readFile` returns the whole file exactly if the file has no byte `0xFF`.** -/
theorem readFile_whole_iff {files : Files} {fileName file : List UInt8} {bufLen : ℕ}
    (hopen : files.contents fileName = some file) (hlen : file.length ≤ bufLen)
    (fileBuf : List UInt8) :
    ReadsWhole files fileName file fileBuf bufLen ↔ 0xFF ∉ file := by
  have hstart : storedBytes file <+: file := List.takeWhile_prefix _
  have hread := readFile_eq hopen fileBuf bufLen
  rw [if_pos (hstart.length_le.trans hlen)] at hread
  rw [← storedBytes_eq_self_iff]
  constructor
  · intro hwhole
    have heq := hread.symm.trans hwhole.read
    rw [Option.some.injEq, Prod.mk.injEq] at heq
    exact hstart.eq_of_length (by exact_mod_cast heq.2)
  · intro hall
    rw [hall] at hread
    refine ⟨hread, fun fileBuf' n h name hname => ?_⟩
    have heq := hread.symm.trans h
    rw [Option.some.injEq, Prod.mk.injEq] at heq
    rw [← heq.1, ← heq.2, List.append_assoc]
    exact writeFile_of_read hname file _

/-- One file, which can be read and written under every name. -/
def oneFile (file : List UInt8) : Files := ⟨fun _ => some file, fun _ => true⟩

/-- A file of two letters. -/
theorem readFile_whole_letters :
    ReadsWhole (oneFile [72, 105]) [102] [72, 105] (List.replicate 8 1) 8 :=
  (readFile_whole_iff rfl (by decide) _).2 (by decide)

/-- Of three bytes the first is read, because the second is `0xFF`. -/
theorem not_readsWhole_eof :
    ¬ ReadsWhole (oneFile [65, 255, 66]) [102] [65, 255, 66] (List.replicate 8 1) 8 := by
  intro h
  have hread := @readFile_eq (oneFile [65, 255, 66]) [102] _ rfl (List.replicate 8 1) 8
  rw [h.read] at hread
  exact absurd hread (by decide)

end Tcp118
