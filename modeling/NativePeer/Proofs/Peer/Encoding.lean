import NativePeer.Proofs.Peer.Lines

/-
This file cuts the bytes of a file into lines and compares what the hosts write for the same lines.
-/

namespace NativePeer

namespace Text

def bytesOf (text : String) : Bytes :=
  text.toList.map latin1Byte

/-- The lines of a file. What follows the last line feed is one more line. -/
def byteLines (file : Bytes) : List Bytes :=
  file.splitOn 10

/-- Each line feed gets a carriage return before it. -/
def withReturns (file : Bytes) : Bytes :=
  file.flatMap fun byte => if byte = 10 then [13, 10] else [byte]

/-- What becomes of a line may depend on its number. -/
def changeLines (change : Nat → Bytes → Bytes) (file : Bytes) : Bytes :=
  [10].intercalate ((byteLines file).mapIdx change)

theorem latin1Byte_ne_lineFeed {letter : Char} (other : letter ≠ '\n') :
    latin1Byte letter ≠ 10 := by
  intro same
  apply shownLetter_ne_lineFeed other
  rw [shownLetter, ofLatin1, same]
  rfl

theorem lineFeed_not_mem_bytesOf {line : String} (unbroken : '\n' ∉ line.toList) :
    10 ∉ bytesOf line := by
  intro member
  obtain ⟨letter, listed, same⟩ := List.mem_map.mp member
  exact latin1Byte_ne_lineFeed (fun feed => unbroken (feed ▸ listed)) same

/-- Nothing but a line feed is written as one. -/
theorem latin1_windows (letters : List Char) :
    latin1 [13, 10] letters = withReturns (latin1 [10] letters) := by
  rw [latin1, latin1, withReturns, List.flatMap_assoc]
  apply List.flatMap_congr
  intro letter _
  by_cases feed : letter = '\n'
  · simp [feed]
  · simp [feed, latin1Byte_ne_lineFeed feed]

/-- The text of some lines. -/
def unlines (lines : List String) : List Char :=
  lines.flatMap fun line => line.toList ++ ['\n']

@[simp] theorem unlines_nil : unlines [] = [] := rfl

theorem unlines_cons (line : String) (lines : List String) :
    unlines (line :: lines) = line.toList ++ '\n' :: unlines lines := by
  rw [unlines, List.flatMap_cons, ← unlines, List.append_assoc, List.singleton_append]

theorem unlines_append (first second : List String) :
    unlines (first ++ second) = unlines first ++ unlines second :=
  List.flatMap_append

theorem mem_unlines {lines : List String} {letter : Char} (member : letter ∈ unlines lines) :
    letter = '\n' ∨ ∃ line ∈ lines, letter ∈ line.toList := by
  obtain ⟨line, listed, inside⟩ := List.mem_flatMap.mp member
  rcases List.mem_append.mp inside with written | feed
  · exact .inr ⟨line, listed, written⟩
  · exact .inl (List.mem_singleton.mp feed)

/-- Unbroken lines are the pieces of their text. Nothing follows the last line feed. -/
theorem pieces_unlines {lines : List String} (unbroken : ∀ line ∈ lines, '\n' ∉ line.toList) :
    pieces '\n' (unlines lines) = lines.map String.toList ++ [[]] := by
  induction lines with
  | nil => rfl
  | cons line lines inductionHypothesis =>
    rw [List.forall_mem_cons] at unbroken
    rw [unlines_cons, pieces_append_cons, pieces_of_not_mem unbroken.1,
      inductionHypothesis unbroken.2]
    rfl

/-- Carriage returns before line feeds are dropped. -/
def dropReturns : List Char → List Char
  | [] => []
  | letter :: letters =>
    if letter = '\r' ∧ letters.head? = some '\n' then dropReturns letters
    else letter :: dropReturns letters

theorem toNat_ofLatin1 (byte : UInt8) : (ofLatin1 byte).toNat = byte.toNat := by
  have valid : byte.toNat.isValidChar := by
    have := byte.toNat_lt
    exact .inl (by omega)
  rw [ofLatin1, Char.ofNat, dif_pos valid]
  rfl

theorem dropReturns_withReturns {file : Bytes} (bare : 13 ∉ file) :
    dropReturns ((withReturns file).map ofLatin1) = file.map ofLatin1 := by
  induction file with
  | nil => rfl
  | cons byte file inductionHypothesis =>
    rw [List.mem_cons, not_or] at bare
    rw [withReturns, List.flatMap_cons, ← withReturns, List.map_append, List.map_cons]
    by_cases feed : byte = 10
    · rw [if_pos feed, feed]
      exact congrArg ('\n' :: ·) (inductionHypothesis bare.2)
    · have other : ofLatin1 byte ≠ '\r' := by
        intro same
        have code := congrArg Char.toNat same
        rw [toNat_ofLatin1] at code
        exact bare.1 (UInt8.toNat_inj.mp code).symm
      rw [if_neg feed, List.map_singleton, List.singleton_append, dropReturns,
        if_neg fun both => other both.1, inductionHypothesis bare.2]

/-- A file whose lines come out as those of another one is changed into it. -/
theorem changeLines_eq {change : Nat → Bytes → Bytes} {file other : Bytes}
    (same : (byteLines file).mapIdx change = byteLines other) :
    changeLines change file = other := by
  rw [changeLines, same]
  exact List.intercalate_splitOn 10

end Text

namespace PeerSource

open Text

/-- Only the line ends of the two hosts differ. -/
theorem encode_windows (lines : List String) :
    encode .windows lines = withReturns (encode .unix lines) := by
  rw [encode, encode, toList_lineSeparator_windows, toList_lineSeparator_unix, latin1_windows]

/-- The text of a file. -/
def decode (host : Host) (file : Bytes) : List Char :=
  match host with
  | .windows => dropReturns (file.map ofLatin1)
  | .unix => file.map ofLatin1

theorem encode_unix_eq_map (lines : List String) :
    encode .unix lines = (unlines lines).map latin1Byte := by
  rw [encode, toList_lineSeparator_unix, latin1, ← List.flatMap_singleton' (List.map _ _),
    List.flatMap_map]
  apply List.flatMap_congr
  intro letter _
  by_cases feed : letter = '\n'
  · rw [if_pos feed, feed]
    rfl
  · rw [if_neg feed]

/-- A file of letters that it shows tells its text. -/
theorem decode_encode (host : Host) {lines : List String}
    (shown : ∀ letter ∈ unlines lines, letter.toNat < 0x100 ∧ letter ≠ '\r') :
    decode host (encode host lines) = unlines lines := by
  have unix : (encode .unix lines).map ofLatin1 = unlines lines := by
    rw [encode_unix_eq_map, List.map_map]
    exact (List.map_congr_left fun letter member => shownLetter_of_lt (shown letter member).1).trans
      (List.map_id _)
  cases host with
  | unix => exact unix
  | windows =>
    have bare : 13 ∉ encode .unix lines := by
      intro member
      have listed := unix ▸ List.mem_map_of_mem (f := ofLatin1) member
      exact (shown _ listed).2 rfl
    rw [decode, encode_windows, dropReturns_withReturns bare, unix]

theorem encode_unix {lines : List String} (unbroken : ∀ line ∈ lines, '\n' ∉ line.toList) :
    encode .unix lines = lines.flatMap fun line => bytesOf line ++ [10] := by
  rw [encode, toList_lineSeparator_unix, latin1, List.flatMap_assoc]
  apply List.flatMap_congr
  intro line member
  rw [List.flatMap_append, ← latin1, latin1_of_not_mem (unbroken line member)]
  rfl

/-- Lines without line feeds are lines of the file that begins with them. -/
theorem byteLines_encode_append {lines : List String}
    (unbroken : ∀ line ∈ lines, '\n' ∉ line.toList) (rest : Bytes) :
    byteLines (encode .unix lines ++ rest) = lines.map bytesOf ++ byteLines rest := by
  rw [encode_unix unbroken]
  induction lines with
  | nil => rfl
  | cons line lines inductionHypothesis =>
    rw [List.forall_mem_cons] at unbroken
    have plain := lineFeed_not_mem_bytesOf unbroken.1
    rw [List.flatMap_cons, List.append_assoc, List.append_assoc, List.singleton_append, byteLines,
      List.splitOn_append_cons_self_of_not_mem plain, ← byteLines, inductionHypothesis unbroken.2,
      List.map_cons, List.cons_append]

end PeerSource

end NativePeer
