import Mathlib.Data.List.DropRight
import Mathlib.Data.List.Forall2
import Formula.Proofs.Prompting

/-!
# Lines of a stream of bytes

The bytes of the input are cut after each line feed, and each call of a line reader takes one of the
pieces: it gives the line that the piece holds, or it fails if the piece is no text, and either way
the next call goes on behind the piece. After the last piece every call says that the input has
ended. So no byte is read twice or passed over, and the lines of a text without carriage returns are
the text again when they are joined, up to a line feed at its end.
-/

namespace Formula

namespace Input

/-- A list cut after each feed. Only the last piece can be without a feed, and no piece is empty. -/
inductive Cut {α : Type} (feed : α) : List α → List (List α) → Prop
  | nothing : Cut feed [] []
  | unended {piece : List α} (hne : piece ≠ []) (hnone : feed ∉ piece) : Cut feed piece [piece]
  | ended (line : List α) {later : List α} {pieces : List (List α)} (hnone : feed ∉ line)
      (hlater : Cut feed later pieces) :
      Cut feed (line ++ feed :: later) ((line ++ [feed]) :: pieces)

section Cut

variable {α : Type} {feed : α} {list : List α} {pieces : List (List α)}

theorem Cut.flatten (h : Cut feed list pieces) : pieces.flatten = list := by
  induction h with
  | nothing => rfl
  | unended => simp
  | ended _ _ _ ih => simp [ih]

theorem Cut.eq_nil_iff (h : Cut feed list pieces) : pieces = [] ↔ list = [] := by
  cases h with
  | nothing => simp
  | unended hne => simp [hne]
  | ended => simp

/-- Without its first piece the list is still cut as before. -/
theorem Cut.tail (h : Cut feed list pieces) : Cut feed pieces.tail.flatten pieces.tail := by
  cases h with
  | nothing => exact .nothing
  | unended => exact .nothing
  | ended _ _ hlater =>
    rw [List.tail_cons, hlater.flatten]
    exact hlater

theorem Cut.drop (h : Cut feed list pieces) (count : Nat) :
    Cut feed (pieces.drop count).flatten (pieces.drop count) := by
  induction count with
  | zero => simpa [h.flatten] using h
  | succ count ih =>
    rw [← List.tail_drop]
    exact ih.tail

/-- Every list can be cut. -/
theorem exists_cut (feed : α) (list : List α) : ∃ pieces, Cut feed list pieces := by
  induction list with
  | nil => exact ⟨[], .nothing⟩
  | cons first later ih =>
    obtain ⟨pieces, hpieces⟩ := ih
    by_cases hfirst : feed = first
    · subst hfirst
      exact ⟨_, .ended [] List.not_mem_nil hpieces⟩
    -- What stands before the first feed is one longer.
    · cases hpieces with
      | nothing => exact ⟨_, .unended (by simp) (by simpa using hfirst)⟩
      | unended hne hnone => exact ⟨_, .unended (by simp) (by simp [hfirst, hnone])⟩
      | ended line hnone hlater =>
        exact ⟨_, .ended (first :: line) (by simp [hfirst, hnone]) hlater⟩

end Cut

/-- The first line feed ends the first piece. -/
theorem pieces_append_lineFeed {bytes : List UInt8} (h : lineFeed ∉ bytes) (rest : List UInt8) :
    pieces (bytes ++ lineFeed :: rest) = (bytes ++ [lineFeed]) :: pieces rest := by
  have hline (byte : UInt8) (hmem : byte ∈ bytes) : decide (byte ≠ lineFeed) = true :=
    decide_eq_true fun heq ↦ h (heq ▸ hmem)
  have hdrop : (bytes ++ lineFeed :: rest).dropWhile (· ≠ lineFeed) = lineFeed :: rest := by
    rw [List.dropWhile_append_of_pos hline]
    simp
  have htake : (bytes ++ lineFeed :: rest).takeWhile (· ≠ lineFeed) = bytes := by
    rw [List.takeWhile_append_of_pos hline]
    simp
  rw [pieces]
  split
  · next heq => rw [hdrop] at heq; cases heq
  · next heq =>
    rw [hdrop] at heq
    cases heq
    rw [htake]

theorem pieces_of_notMem {bytes : List UInt8} (h : lineFeed ∉ bytes) :
    pieces bytes = if bytes = [] then [] else [bytes] := by
  have hdrop : bytes.dropWhile (· ≠ lineFeed) = [] :=
    List.dropWhile_eq_nil_iff.2 fun byte hmem ↦ decide_eq_true fun heq ↦ h (heq ▸ hmem)
  rw [pieces]
  split
  · rfl
  · next heq => rw [hdrop] at heq; cases heq

/-- Cutting is unique, and `pieces` does it. -/
theorem Cut.pieces_eq {bytes : List UInt8} {found : List (List UInt8)}
    (h : Cut lineFeed bytes found) : pieces bytes = found := by
  induction h with
  | nothing => exact (pieces_of_notMem List.not_mem_nil).trans (if_pos rfl)
  | unended hne hnone => rw [pieces_of_notMem hnone, if_neg hne]
  | ended _ hnone _ ih => rw [pieces_append_lineFeed hnone, ih]

def IsLineEnd (c : Char) : Prop :=
  c = '\n' ∨ c = '\r'

/-- What a line reader makes of a piece: the text of it without all that ends a line there. -/
inductive ReadsAs : List UInt8 → Except StreamError (Option String) → Prop
  | line (line ending : String) (hline : ∀ c ∈ line.toList.getLast?, ¬IsLineEnd c)
      (hending : ∀ c ∈ ending.toList, IsLineEnd c) :
      ReadsAs (line ++ ending).toUTF8.data.toList (.ok (some line))
  | refused {piece : List UInt8} (hnone : ∀ text : String, text.toUTF8.data.toList ≠ piece) :
      ReadsAs piece (.error (.io "stream did not contain valid UTF-8"))

theorem trimLineEnd_append {line ending : String}
    (hline : ∀ c ∈ line.toList.getLast?, ¬IsLineEnd c)
    (hending : ∀ c ∈ ending.toList, IsLineEnd c) : trimLineEnd (line ++ ending) = line := by
  have hends (c : Char) (hmem : c ∈ ending.toList.reverse) :
      (decide (c = '\n') || decide (c = '\r')) = true := by
    simpa [IsLineEnd] using hending c (List.mem_reverse.1 hmem)
  have hkeeps : line.toList.reverse.dropWhile (fun c ↦ c = '\n' || c = '\r') =
      line.toList.reverse := by
    cases hlast : line.toList.reverse with
    | nil => rfl
    | cons last before =>
      have hmem : last ∈ line.toList.getLast? := by
        rw [← List.head?_reverse, hlast]
        rfl
      exact List.dropWhile_cons_of_neg (by simpa [IsLineEnd] using hline last hmem)
  rw [trimLineEnd, Text.dropEnd, String.toList_append, List.reverse_append,
    List.dropWhile_append_of_pos hends, hkeeps, List.reverse_reverse, String.ofList_toList]

/-- A line and what was cut off its end are the whole text again. -/
theorem exists_trimLineEnd_append (text : String) :
    ∃ ending, text = trimLineEnd text ++ ending ∧ (∀ c ∈ ending.toList, IsLineEnd c) ∧
      ∀ c ∈ (trimLineEnd text).toList.getLast?, ¬IsLineEnd c := by
  let breaks (c : Char) : Bool := c = '\n' || c = '\r'
  have htrim : (trimLineEnd text).toList = text.toList.rdropWhile breaks := String.toList_ofList
  refine ⟨String.ofList (text.toList.rtakeWhile breaks), ?_, fun c hc ↦ ?_, fun c hc ↦ ?_⟩
  · apply String.toList_inj.1
    rw [String.toList_append, htrim, String.toList_ofList, List.rdropWhile, List.rtakeWhile,
      ← List.reverse_append, List.takeWhile_append_dropWhile, List.reverse_reverse]
  · rw [String.toList_ofList] at hc
    simpa [breaks, IsLineEnd] using List.mem_rtakeWhile_imp hc
  · rw [htrim] at hc
    obtain ⟨hne, rfl⟩ := List.mem_getLast?_eq_getLast hc
    simpa [breaks, IsLineEnd] using List.rdropWhile_last_not breaks _ hne

theorem fromUTF8?_toUTF8 (text : String) :
    String.fromUTF8? ⟨text.toUTF8.data.toList.toArray⟩ = some text := by
  have hvalid : text.toUTF8.IsValidUTF8 := text.isValidUTF8
  rw [Array.toArray_toList, String.fromUTF8?, dif_pos hvalid]
  rfl

/-- The bytes of a text read back as its line. -/
theorem ofPiece_toUTF8 (text : String) :
    ofPiece text.toUTF8.data.toList = .line (trimLineEnd text) := by
  rw [ofPiece, fromUTF8?_toUTF8]

theorem toUTF8_of_fromUTF8? {piece : List UInt8} {text : String}
    (h : String.fromUTF8? ⟨piece.toArray⟩ = some text) : text.toUTF8.data.toList = piece := by
  unfold String.fromUTF8? at h
  split at h
  · cases h
    rfl
  · cases h

/-- What a piece reads as is what `ofPiece` makes of it. -/
theorem readsAs_iff {piece : List UInt8} {result : Except StreamError (Option String)} :
    ReadsAs piece result ↔ result = (ofPiece piece).result := by
  constructor
  · intro h
    cases h with
    | line _ _ hline hending => rw [ofPiece_toUTF8, trimLineEnd_append hline hending, Input.result]
    | refused hnone =>
      cases hpiece : String.fromUTF8? ⟨piece.toArray⟩ with
      | none => rw [ofPiece, hpiece, Input.result]
      | some text => exact absurd (toUTF8_of_fromUTF8? hpiece) (hnone text)
  · rintro rfl
    cases hpiece : String.fromUTF8? ⟨piece.toArray⟩ with
    | none =>
      rw [ofPiece, hpiece]
      refine .refused fun text htext ↦ ?_
      rw [← htext, fromUTF8?_toUTF8] at hpiece
      cases hpiece
    | some text =>
      obtain ⟨ending, htext, hending, hline⟩ := exists_trimLineEnd_append text
      rw [← toUTF8_of_fromUTF8? hpiece, ofPiece_toUTF8]
      have hread := ReadsAs.line _ _ hline hending
      rwa [← htext] at hread

/-- The line feed is its own byte, and no byte of any other character. -/
theorem lineFeed_notMem_utf8EncodeChar {c : Char} (h : c ≠ '\n') :
    lineFeed ∉ String.utf8EncodeChar c := by
  have hcode : c.val.toNat ≠ 10 := fun heq ↦ h (Char.ext (UInt32.toNat_inj.1 heq))
  have hbyte (n : Nat) (hlow : n % 256 ≠ 10) : lineFeed ≠ UInt8.ofNat n := by
    intro heq
    exact hlow (by simpa [lineFeed] using (congrArg UInt8.toNat heq).symm)
  unfold String.utf8EncodeChar
  dsimp only
  repeat' split
  all_goals simp only [List.mem_cons, List.not_mem_nil, or_false, not_or]
  · exact hbyte _ (by omega)
  · exact ⟨hbyte _ (by omega), hbyte _ (by omega)⟩
  · exact ⟨hbyte _ (by omega), hbyte _ (by omega), hbyte _ (by omega)⟩
  · exact ⟨hbyte _ (by omega), hbyte _ (by omega), hbyte _ (by omega), hbyte _ (by omega)⟩

theorem data_toList_toUTF8 (text : String) :
    text.toUTF8.data.toList = text.toList.flatMap String.utf8EncodeChar := by
  rw [String.toUTF8, ← String.utf8Encode_toList, List.utf8Encode, List.toList_data_toByteArray]

/-- No character but the line feed has its byte in its encoding. -/
theorem lineFeed_notMem_encoded {chars : List Char} (h : '\n' ∉ chars) :
    lineFeed ∉ chars.flatMap String.utf8EncodeChar := by
  intro hmem
  obtain ⟨c, hc, hbyte⟩ := List.mem_flatMap.1 hmem
  exact lineFeed_notMem_utf8EncodeChar (fun heq ↦ h (heq ▸ hc)) hbyte

theorem encoded_append_lineFeed (chars later : List Char) :
    (chars ++ '\n' :: later).flatMap String.utf8EncodeChar =
      chars.flatMap String.utf8EncodeChar ++
        lineFeed :: later.flatMap String.utf8EncodeChar := by
  rw [List.flatMap_append, List.flatMap_cons]
  rfl

/-- The bytes of a text are cut where its characters are. -/
theorem Cut.encoded {chars : List Char} {found : List (List Char)} (h : Cut '\n' chars found) :
    Cut lineFeed (chars.flatMap String.utf8EncodeChar)
      (found.map fun piece ↦ piece.flatMap String.utf8EncodeChar) := by
  induction h with
  | nothing => exact .nothing
  | @unended piece hne hnone =>
    refine .unended (fun hnil ↦ ?_) (lineFeed_notMem_encoded hnone)
    obtain ⟨c, hc⟩ := List.exists_mem_of_ne_nil _ hne
    have hlength := c.utf8Size_pos
    rw [← String.length_utf8EncodeChar, List.flatMap_eq_nil_iff.1 hnil c hc] at hlength
    exact Nat.lt_irrefl 0 hlength
  | ended _ hnone _ ih =>
    rw [encoded_append_lineFeed, List.map_cons, encoded_append_lineFeed]
    exact .ended _ (lineFeed_notMem_encoded hnone) ih

def lineOf (piece : List Char) : String :=
  trimLineEnd (String.ofList piece)

/-- The input that a text is holds a line for each piece of the text, and nothing else. -/
theorem ofText_eq {text : String} {found : List (List Char)} (h : Cut '\n' text.toList found) :
    ofText text = found.map fun piece ↦ .line (lineOf piece) := by
  rw [ofText, data_toList_toUTF8, ofBytes, h.encoded.pieces_eq, List.map_map]
  refine List.map_congr_left fun piece _ ↦ ?_
  rw [Function.comp_apply, lineOf, ← ofPiece_toUTF8, data_toList_toUTF8, String.toList_ofList]

theorem lineOf_append {chars : List Char} (hnone : '\n' ∉ chars) (hreturn : '\r' ∉ chars)
    (ending : String) (hending : ∀ c ∈ ending.toList, IsLineEnd c) :
    lineOf (chars ++ ending.toList) = String.ofList chars := by
  rw [lineOf, String.ofList_append, String.ofList_toList]
  refine trimLineEnd_append (fun c hc hbreak ↦ ?_) hending
  rw [String.toList_ofList] at hc
  rcases hbreak with rfl | rfl
  · exact hnone (List.mem_of_getLast? hc)
  · exact hreturn (List.mem_of_getLast? hc)

/-- Joined by line feeds the lines of a text are the text again, but for the end of the last one. -/
theorem Cut.join_lines {chars : List Char} {found : List (List Char)} (h : Cut '\n' chars found)
    (hreturn : '\r' ∉ chars) :
    String.ofList chars =
      "\n".intercalate (found.map lineOf) ++ if chars.getLast? = some '\n' then "\n" else "" := by
  induction h with
  | nothing => rfl
  | @unended piece hne hnone =>
    have hline : lineOf piece = String.ofList piece := by
      simpa using lineOf_append hnone hreturn "" (by simp)
    have hlast : piece.getLast? ≠ some '\n' := fun heq ↦ hnone (List.mem_of_getLast? heq)
    rw [List.map_singleton, hline, String.intercalate_singleton, if_neg hlast, String.append_empty]
  | @ended line later pieces hnone hlater ih =>
    have hreturns : '\r' ∉ line ∧ '\r' ∉ later := by simpa [not_or] using hreturn
    have hline : lineOf (line ++ ['\n']) = String.ofList line :=
      lineOf_append hnone hreturns.1 "\n" (by simp [IsLineEnd])
    have htext : String.ofList (line ++ '\n' :: later) =
        String.ofList line ++ "\n" ++ String.ofList later := by
      rw [String.ofList_append, String.ofList_cons, String.append_assoc]
      rfl
    -- A feed stands between two lines only if another line follows it.
    by_cases hnil : later = []
    · subst hnil
      rw [htext, hlater.eq_nil_iff.2 rfl, List.map_singleton, hline, String.intercalate_singleton]
      simp
    · have hpieces : pieces.map lineOf ≠ [] := by
        simpa [hlater.eq_nil_iff] using hnil
      calc
        _ = String.ofList line ++ "\n" ++ String.ofList later := htext
        _ = String.ofList line ++ "\n" ++ ("\n".intercalate (pieces.map lineOf) ++
            if later.getLast? = some '\n' then "\n" else "") := by rw [← ih hreturns.2]
        _ = _ := by
          rw [List.map_cons, hline, String.intercalate_cons_of_ne_nil hpieces,
            List.getLast?_append_of_ne_nil _ (List.cons_ne_nil _ _),
            List.getLast?_cons_of_ne_nil hnil, ← String.append_assoc]

structure Reads (bytes : List UInt8) (found : List (List UInt8))
    (results : List (Except StreamError (Option String))) : Prop where
  cut : Cut lineFeed bytes found
  readsAs : List.Forall₂ ReadsAs found results

theorem reads_iff {bytes : List UInt8} {found : List (List UInt8)}
    {results : List (Except StreamError (Option String))} :
    Reads bytes found results ↔
      Cut lineFeed bytes found ∧ results = (ofBytes bytes).map Input.result := by
  constructor
  · rintro ⟨hcut, hreads⟩
    refine ⟨hcut, ?_⟩
    rw [ofBytes, hcut.pieces_eq, List.map_map]
    clear hcut
    induction hreads with
    | nil => rfl
    | cons hread _ ih => rw [List.map_cons, ← ih, readsAs_iff.1 hread, Function.comp_apply]
  · rintro ⟨hcut, rfl⟩
    refine ⟨hcut, ?_⟩
    rw [ofBytes, hcut.pieces_eq, List.map_map, List.forall₂_map_right_iff, List.forall₂_same]
    exact fun piece _ ↦ readsAs_iff.2 rfl

/-- Every stream of bytes has one list of results. -/
theorem exists_reads (bytes : List UInt8) : ∃ found results, Reads bytes found results := by
  obtain ⟨found, hcut⟩ := exists_cut lineFeed bytes
  exact ⟨found, _, reads_iff.2 ⟨hcut, rfl⟩⟩

end Input

/-! ## Calls one after the other -/

namespace Dialogue

variable {ε α : Type}

/-- What dialogues come to that are held one after the other, also behind one that fails. -/
def inTurn : List (Dialogue ε α) → Console → List (Except ε α) × Console
  | [], console => ([], console)
  | dialogue :: dialogues, console =>
    let (result, after) := dialogue console
    let (results, last) := inTurn dialogues after
    (result :: results, last)

theorem unread_readLine (prompt : String) (console : Console) :
    (readLine prompt console).2.unread = console.unread.tail := by
  rw [readLine_eq]
  cases Input.next console.unread <;> rfl

/-- Each call takes an item, and once there are none left every call says so. -/
theorem inTurn_readLine (prompts : List String) (console : Console) :
    let calls := inTurn (prompts.map readLine) console
    calls.1 = (console.unread.map Input.result).takeD prompts.length (.ok none) ∧
      calls.2.unread = console.unread.drop prompts.length := by
  induction prompts generalizing console with
  | nil => exact ⟨rfl, rfl⟩
  | cons prompt prompts ih =>
    obtain ⟨hresults, hunread⟩ := ih (readLine prompt console).2
    have hfirst : (readLine prompt console).1 =
        (console.unread.map Input.result).head?.getD (.ok none) := by
      rw [readLine_eq]
      cases console.unread <;> rfl
    rw [unread_readLine] at hresults hunread
    constructor
    · rw [List.length_cons, List.takeD_succ, ← hfirst, ← List.map_tail, ← hresults]
      rfl
    · rw [List.length_cons, ← List.drop_tail, ← hunread]
      rfl

/-- A line reader takes the pieces of the bytes one after the other, whatever it makes of them, and
none of them twice. What is left is read as a stream of its own. The lines of a text without
carriage returns give back the text. -/
theorem readLine_takes_each_piece_once (bytes : List UInt8) :
    (∃ pieces results, Input.Reads bytes pieces results) ∧
    ∀ pieces results, Input.Reads bytes pieces results →
      pieces.flatten = bytes ∧
      (∀ (console : Console) (prompts : List String), console.unread = Input.ofBytes bytes →
        let calls := inTurn (prompts.map readLine) console
        calls.1 = results.takeD prompts.length (.ok none) ∧
          calls.2.unread = Input.ofBytes (pieces.drop prompts.length).flatten) ∧
      ∀ text : String, text.toUTF8.data.toList = bytes → '\r' ∉ text.toList →
        ∃ lines : List String, results = lines.map (fun line ↦ .ok (some line)) ∧
          text = "\n".intercalate lines ++
            if text.toList.getLast? = some '\n' then "\n" else "" := by
  refine ⟨Input.exists_reads bytes, fun pieces results hreads ↦ ?_⟩
  obtain ⟨hcut, hresults⟩ := Input.reads_iff.1 hreads
  refine ⟨hcut.flatten, fun console prompts hunread ↦ ?_, fun text hbytes hreturn ↦ ?_⟩
  · obtain ⟨hcalls, hleft⟩ := inTurn_readLine prompts console
    rw [hunread] at hcalls hleft
    refine ⟨hcalls.trans (by rw [hresults]), hleft.trans ?_⟩
    rw [Input.ofBytes, Input.ofBytes, hcut.pieces_eq, (hcut.drop _).pieces_eq, List.map_drop]
  · obtain ⟨found, hfound⟩ := Input.exists_cut '\n' text.toList
    refine ⟨found.map Input.lineOf, ?_, ?_⟩
    · rw [hresults, ← hbytes, ← Input.ofText, Input.ofText_eq hfound, List.map_map, List.map_map]
      rfl
    · rw [← hfound.join_lines hreturn, String.ofList_toList]

/-- A line with two carriage returns, bytes that are no text, an empty line and a line without an
end: two more calls find nothing. The other stream is a text, whose last line has an end. -/
theorem readLine_takes_each_piece_once_broken :
    let bytes : List UInt8 := [97, 13, 13, 10, 255, 10, 10, 195, 169]
    let pieces : List (List UInt8) := [[97, 13, 13, 10], [255, 10], [10], [195, 169]]
    let results : List (Except StreamError (Option String)) :=
      [.ok (some "a"), .error (.io "stream did not contain valid UTF-8"), .ok (some ""),
        .ok (some "é")]
    let console := Console.ofInput (Input.ofBytes bytes) fun _ _ ↦ none
    let calls := inTurn ((List.replicate 6 "").map readLine) console
    let lines : List String := ["a", "", "b"]
    (Input.Reads bytes pieces results ∧ calls.1 = results ++ [.ok none, .ok none] ∧
      calls.2.unread = []) ∧
      Input.Reads [97, 10, 10, 98, 10] [[97, 10], [10], [98, 10]]
          (lines.map fun line ↦ .ok (some line)) ∧
        "a\n\nb\n" = "\n".intercalate lines ++ "\n" := by
  intro bytes pieces results console calls lines
  have hnone (text : String) : text.toUTF8.data.toList ≠ [255, 10] := by
    intro htext
    have hread := Input.fromUTF8?_toUTF8 text
    rw [htext, (by decide : String.fromUTF8? ⟨[(255 : UInt8), 10].toArray⟩ = none)] at hread
    cases hread
  have hbroken : Input.Reads bytes pieces results := by
    refine ⟨?_, ?_⟩
    · exact .ended [97, 13, 13] (by decide) (.ended [255] (by decide)
        (.ended [] (by decide) (.unended (by decide) (by decide))))
    · refine .cons ?_ (.cons (.refused hnone) (.cons ?_ (.cons ?_ .nil)))
      · exact .line "a" "\r\r\n" (by simp [Input.IsLineEnd]) (by simp [Input.IsLineEnd])
      · exact .line "" "\n" (by simp [Input.IsLineEnd]) (by simp [Input.IsLineEnd])
      · exact .line "é" "" (by simp [Input.IsLineEnd]) (by simp [Input.IsLineEnd])
  have htext : Input.Reads [97, 10, 10, 98, 10] [[97, 10], [10], [98, 10]]
      (lines.map fun line ↦ .ok (some line)) := by
    refine ⟨?_, ?_⟩
    · exact .ended [97] (by decide) (.ended [] (by decide)
        (.ended [98] (by decide) .nothing))
    · refine .cons ?_ (.cons ?_ (.cons ?_ .nil))
      · exact .line "a" "\n" (by simp [Input.IsLineEnd]) (by simp [Input.IsLineEnd])
      · exact .line "" "\n" (by simp [Input.IsLineEnd]) (by simp [Input.IsLineEnd])
      · exact .line "b" "\n" (by simp [Input.IsLineEnd]) (by simp [Input.IsLineEnd])
  obtain ⟨-, hcalls, -⟩ := (readLine_takes_each_piece_once bytes).2 pieces results hbroken
  obtain ⟨hresults, hunread⟩ := hcalls console (List.replicate 6 "") rfl
  obtain ⟨-, -, hlines⟩ := (readLine_takes_each_piece_once _).2 _ _ htext
  obtain ⟨found, hfound, hjoined⟩ := hlines "a\n\nb\n" rfl (by simp)
  have hsame : lines = found := List.map_injective_iff.2 (fun _ _ h ↦ by simpa using h) hfound
  refine ⟨⟨hbroken, hresults, hunread.trans ?_⟩, htext, ?_⟩
  · exact congrArg (List.map Input.ofPiece) Input.Cut.nothing.pieces_eq
  · rw [hsame]
    exact hjoined

end Dialogue

end Formula
