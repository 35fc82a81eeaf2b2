import Mathlib.Data.List.DropRight

/-!
# Lines of UTF-8 text

What a server that reads line by line makes of a stream of bytes. The abstract side is a text: its
lines, trimmed, without the blank ones. The concrete side is bytes, which can be cut anywhere, also
inside a character; the lemmas below say that a newline byte is always a newline character, so that
a stream may be cut after one, and that a decoded prefix of an encoded text may be cut off.
-/

namespace Lines

/-! ### Text -/

/-- The characters with the Unicode property `White_Space`. -/
def isWhitespace (c : Char) : Bool :=
  let n := c.toNat
  (9 ≤ n && n ≤ 13) || n == 0x20 || n == 0x85 || n == 0xA0 || n == 0x1680
    || (0x2000 ≤ n && n ≤ 0x200A) || n == 0x2028 || n == 0x2029 || n == 0x202F || n == 0x205F
    || n == 0x3000

def trim (line : List Char) : List Char := (line.dropWhile isWhitespace).rdropWhile isWhitespace

def trimmedLine (line : List Char) : List String :=
  if trim line = [] then [] else [String.ofList (trim line)]

/-- The trimmed lines of a text that are not empty. -/
def trimmedLines (text : List Char) : List String := (text.splitOn '\n').flatMap trimmedLine

theorem trim_append_singleton (line : List Char) {c : Char} (hc : isWhitespace c = true) :
    trim (line ++ [c]) = trim line := by
  unfold trim
  rw [List.dropWhile_append]
  split
  · rename_i hempty
    rw [List.isEmpty_iff.mp hempty]
    simp [hc]
  · exact List.rdropWhile_concat_pos isWhitespace _ c hc

theorem trimmedLine_append_newline (line : List Char) :
    trimmedLine (line ++ ['\n']) = trimmedLine line := by
  unfold trimmedLine
  rw [trim_append_singleton line (by decide)]

theorem trimmedLine_cons {c : Char} (hc : isWhitespace c = true) (line : List Char) :
    trimmedLine (c :: line) = trimmedLine line := by
  unfold trimmedLine trim
  rw [List.dropWhile_cons_of_pos hc]

@[simp]
theorem trimmedLines_nil : trimmedLines [] = [] := by decide

theorem trimmedLines_of_notMem {text : List Char} (hnl : '\n' ∉ text) :
    trimmedLines text = trimmedLine text := by
  unfold trimmedLines
  rw [List.splitOn_eq_singleton hnl, List.flatMap_singleton]

theorem trimmedLines_append_newline {line : List Char} (hnl : '\n' ∉ line) (text : List Char) :
    trimmedLines (line ++ '\n' :: text) = trimmedLine line ++ trimmedLines text := by
  unfold trimmedLines
  rw [List.splitOn_append_cons_self_of_not_mem hnl, List.flatMap_cons]

theorem trimmedLines_whitespace_append {ws : List Char} (hws : ∀ c ∈ ws, isWhitespace c = true)
    (text : List Char) : trimmedLines (ws ++ text) = trimmedLines text := by
  induction ws with
  | nil => rfl
  | cons c ws ih =>
      rw [List.cons_append, ← ih fun d hd => hws d (List.mem_cons_of_mem c hd)]
      generalize ws ++ text = rest
      unfold trimmedLines
      rw [List.splitOn_cons_eq_if_modifyHead]
      split
      · rfl
      · obtain ⟨line, lines, hlines⟩ :=
          List.exists_cons_of_ne_nil (List.splitOn_ne_nil '\n' rest)
        rw [hlines, List.modifyHead_cons, List.flatMap_cons, List.flatMap_cons,
          trimmedLine_cons (hws c List.mem_cons_self)]

/-! ### Bytes -/

def encode (text : List Char) : List UInt8 := text.flatMap String.utf8EncodeChar

def decode (bytes : List UInt8) : Option (List Char) :=
  bytes.toByteArray.utf8Decode?.map Array.toList

def newline : UInt8 := 10

theorem takeWhile_append_newline {bytes after : List UInt8} {b : UInt8}
    (hdrop : bytes.dropWhile (· ≠ newline) = b :: after) :
    newline ∉ bytes.takeWhile (· ≠ newline)
      ∧ bytes.takeWhile (· ≠ newline) ++ newline :: after = bytes := by
  have hsome : bytes.dropWhile (· ≠ newline) ≠ [] := by
    rw [hdrop]
    exact List.cons_ne_nil b after
  have hhead := List.head_dropWhile_not (· ≠ newline) hsome
  have hb : b = newline := by
    simp only [hdrop, List.head_cons] at hhead
    simpa using hhead
  have hsplit := List.takeWhile_append_dropWhile (p := (· ≠ newline)) (l := bytes)
  constructor
  · intro hmem
    simpa using List.mem_takeWhile_imp hmem
  · rwa [hdrop, hb] at hsplit

theorem notMem_of_dropWhile_eq_nil {bytes : List UInt8}
    (hdrop : bytes.dropWhile (· ≠ newline) = []) : newline ∉ bytes := by
  intro hmem
  simpa using List.dropWhile_eq_nil_iff.mp hdrop newline hmem

@[simp]
theorem encode_append (text text' : List Char) :
    encode (text ++ text') = encode text ++ encode text' :=
  List.flatMap_append

@[simp]
theorem decode_encode (text : List Char) : decode (encode text) = some text := by
  have h : (encode text).toByteArray = text.utf8Encode := rfl
  simp [decode, h]

theorem encode_injective : Function.Injective encode := by
  intro text text' heq
  have h := congrArg decode heq
  simpa using h

theorem newline_mem_encode {text : List Char} (hmem : '\n' ∈ text) : newline ∈ encode text :=
  List.mem_flatMap.mpr ⟨'\n', hmem, by decide⟩

theorem toByteArray_injective {bytes bytes' : List UInt8}
    (h : bytes.toByteArray = bytes'.toByteArray) : bytes = bytes' := by
  have hdata := congrArg (fun b => b.data.toList) h
  simpa using hdata

theorem eq_encode_of_decode {bytes : List UInt8} {text : List Char}
    (hdecode : decode bytes = some text) : bytes = encode text := by
  obtain ⟨chars, hchars, rfl⟩ := Option.map_eq_some_iff.mp hdecode
  have hsome : bytes.toByteArray.utf8Decode?.isSome := by simp [hchars]
  have h := ByteArray.utf8Encode_get_utf8Decode? (h := hsome)
  simp only [hchars, Option.get_some] at h
  exact (toByteArray_injective h).symm

/-- An encoded beginning of an encoded text can be cut off. -/
theorem exists_of_encode_append {text text' : List Char} {bytes : List UInt8}
    (h : encode text ++ bytes = encode text') :
    ∃ rest, text' = text ++ rest ∧ bytes = encode rest := by
  have hbytes : text.utf8Encode ++ bytes.toByteArray = text'.utf8Encode := by
    have h' := congrArg List.toByteArray h
    rwa [List.toByteArray_append] at h'
  obtain ⟨rest, rfl⟩ := List.isPrefix_of_utf8Encode_append_eq_utf8Encode _ hbytes
  rw [encode_append] at h
  exact ⟨rest, rfl, List.append_cancel_left h⟩

theorem eq_newline_of_mem {c : Char} (hmem : newline ∈ String.utf8EncodeChar c) : c = '\n' := by
  obtain ⟨i, hi, hbyte⟩ := List.getElem_of_mem hmem
  -- the byte is below 0x80, so it is the first one
  have hfirst : (String.utf8EncodeChar c)[i].IsUTF8FirstByte := by
    rw [hbyte]
    decide
  obtain rfl := UInt8.isUTF8FirstByte_getElem_utf8EncodeChar.mp hfirst
  have hcons : encode ['\n'] ++ (String.utf8EncodeChar c).tail = encode [c] := by
    have htail : newline :: (String.utf8EncodeChar c).tail = String.utf8EncodeChar c := by
      rw [← hbyte, ← List.drop_one, List.getElem_cons_drop, List.drop_zero]
    calc encode ['\n'] ++ (String.utf8EncodeChar c).tail
        = newline :: (String.utf8EncodeChar c).tail := rfl
      _ = String.utf8EncodeChar c := htail
      _ = encode [c] := List.append_nil _ |>.symm
  obtain ⟨rest, heq, -⟩ := exists_of_encode_append hcons
  exact (List.cons.inj heq).1

/-- The first newline byte of an encoded text is its first newline character. -/
theorem exists_of_append_newline {text : List Char} {before after : List UInt8}
    (hnl : newline ∉ before) (h : before ++ newline :: after = encode text) :
    ∃ line rest, text = line ++ '\n' :: rest ∧ '\n' ∉ line ∧ before = encode line
      ∧ after = encode rest := by
  induction text generalizing before with
  | nil => simp [encode] at h
  | cons c text ih =>
      by_cases hc : c = '\n'
      · subst hc
        cases before with
        | nil => exact ⟨[], text, rfl, List.not_mem_nil, rfl, (List.cons.inj h).2⟩
        | cons b before =>
            have hb : b = newline := (List.cons.inj h).1
            exact absurd (hb ▸ List.mem_cons_self) hnl
      · -- the newline byte lies behind this character
        obtain ⟨before, rfl, h'⟩ : ∃ before', before = String.utf8EncodeChar c ++ before'
            ∧ before' ++ newline :: after = encode text := by
          rw [encode, List.flatMap_cons] at h
          obtain ⟨as, hchar, has⟩ | ⟨before', hbefore, htext⟩ := List.append_eq_append_iff.mp h
          · cases as with
            | nil => exact ⟨[], by simpa using hchar.symm, has⟩
            | cons b as =>
                have hb : newline = b := (List.cons.inj has).1
                have hmem : newline ∈ String.utf8EncodeChar c := by simp [hchar, hb]
                exact absurd (eq_newline_of_mem hmem) hc
          · exact ⟨before', hbefore, htext.symm⟩
        obtain ⟨line, rest, rfl, hline, rfl, hafter⟩ :=
          ih (fun hmem => hnl (List.mem_append_right _ hmem)) h'
        refine ⟨c :: line, rest, rfl, ?_, rfl, hafter⟩
        intro hmem
        obtain heq | hmem := List.mem_cons.mp hmem
        · exact hc heq.symm
        · exact hline hmem

end Lines
