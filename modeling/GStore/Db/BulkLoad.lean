import GStore.Db.Engine
import GStore.Db.WellFormed
import GStore.Model.Utf8

/-! # Loads in parallel and in batches

`db/mod.rs`, `split_lines`, `build_from_ntriples_str_parallel` and `build_from_ntriples_batched`:
a document is cut behind line feeds, and its parts are parsed on their own; or it is read line by
line, and what was encoded is loaded whenever a batch is full. -/

namespace GStore.Db

open Dict GStore.Parser Reason Store

/-! ## Cuts behind a line feed -/

/-- `&content[start..stop]`, a panic off the boundaries. -/
def sliceBetween (content : Text) (start stop : Nat) : Option Text :=
  if start ≤ stop ∧ isCharBoundary content start ∧ isCharBoundary content stop then
    fromUtf8 (((utf8 content).take stop).drop start)
  else none

/-- Behind the first line feed from `cut` on, or the end. -/
def behindLine (bytes : Bytes) (cut : Nat) : Nat :=
  let cut := cut + ((bytes.drop cut).takeWhile (· != 10)).length
  if cut < bytes.length then cut + 1 else cut

/-- The loop of `split_lines`, with so many rounds left; the product wraps around. -/
def splitFrom (content : Text) (n : Nat) : Nat → Nat → List Text → Option (Nat × List Text)
  | 0, start, chunks => some (start, chunks)
  | left + 1, start, chunks =>
    let len := (utf8 content).length
    if len ≤ start then some (start, chunks)
    else
      let cut := behindLine (utf8 content) (max (len * (n - (left + 1)) % 2 ^ 64 / n) start)
      if start < cut then do
        let chunk ← sliceBetween content start cut
        splitFrom content n left cut (chunks ++ [chunk])
      else splitFrom content n left start chunks

/-- `Vec::with_capacity` of so many slices of 16 bytes; `none` is its panic. -/
def reserveSlices (count : Nat) : Option Unit := if count * 16 < 2 ^ 63 then some () else none

/-- What is left behind the last cut. -/
def lastSlice (content : Text) (start : Nat) (chunks : List Text) : Option (List Text) :=
  if start < (utf8 content).length then
    (sliceBetween content start (utf8 content).length).map fun chunk => chunks ++ [chunk]
  else some chunks

def splitLines (content : Text) (n : Nat) : Option (List Text) :=
  if n ≤ 1 ∨ content = [] then some [content]
  else do
    reserveSlices n
    let (start, chunks) ← splitFrom content n (n - 1) 0 []
    let chunks ← lastSlice content start chunks
    return if chunks = [] then [content] else chunks

theorem sliceBetween_append (front piece back : Text) :
    sliceBetween (front ++ piece ++ back) (utf8 front).length (utf8 (front ++ piece)).length =
      some piece := by
  have inOrder : (utf8 front).length ≤ (utf8 (front ++ piece)).length := by
    rw [utf8_append, List.length_append]
    exact Nat.le_add_right _ _
  have first : isCharBoundary (front ++ piece ++ back) (utf8 front).length = true := by
    rw [List.append_assoc]
    exact isCharBoundary_append front (piece ++ back)
  rw [sliceBetween, if_pos ⟨inOrder, first, isCharBoundary_append (front ++ piece) back⟩,
    utf8_append (front ++ piece), List.take_left, utf8_append front, List.drop_left, fromUtf8_utf8]

/-- A line feed among the bytes is one among the characters. -/
theorem exists_of_lineFeed {content : Text} {index : Nat}
    (found : (utf8 content)[index]? = some 10) :
    ∃ front back, content = front ++ '\n' :: back ∧ (utf8 front).length = index := by
  have boundary : isCharBoundary content index = true := by
    rw [isCharBoundary, found]
    simp [Continues]
  obtain ⟨front, back, rfl, width⟩ := exists_of_isCharBoundary boundary
  have feed : utf8 back = utf8 ['\n'] ++ (utf8 back).tail := by
    rw [← width, utf8_append, List.getElem?_append_right (le_refl _), Nat.sub_self] at found
    cases bytes : utf8 back with
    | nil =>
      rw [bytes] at found
      cases found
    | cons byte rest =>
      rw [bytes] at found
      obtain rfl := Option.some.inj found
      rfl
  obtain ⟨rest, rfl, _⟩ := exists_of_utf8_prefix feed
  exact ⟨front, rest, rfl, width⟩

theorem eq_nil_of_utf8_length {text : Text} (empty : (utf8 text).length = 0) : text = [] := by
  cases text with
  | nil => rfl
  | cons char rest =>
    have width := Char.utf8Size_pos char
    rw [utf8_cons, List.length_append, String.length_utf8EncodeChar] at empty
    omega

/-- Of two beginnings of a text, the one with no more bytes begins the other. -/
theorem exists_append_of_length_le {front back other rest : Text}
    (same : front ++ back = other ++ rest) (shorter : (utf8 front).length ≤ (utf8 other).length) :
    ∃ piece, other = front ++ piece ∧ back = piece ++ rest := by
  rcases List.append_eq_append_iff.mp same with ⟨piece, isOther, isBack⟩ | ⟨piece, isFront, isRest⟩
  · exact ⟨piece, isOther, isBack⟩
  · have empty : piece = [] := by
      apply eq_nil_of_utf8_length
      rw [isFront, utf8_append, List.length_append] at shorter
      omega
    refine ⟨[], ?_, ?_⟩
    · rw [isFront, empty, List.append_nil, List.append_nil]
    · rw [isRest, empty]
      rfl

def EndsLine (chunk : Text) : Prop := chunk.getLast? = some '\n'

theorem getElem?_takeWhile_ne {byte : UInt8} {bytes : Bytes}
    (stops : (bytes.takeWhile (· != byte)).length < bytes.length) :
    bytes[(bytes.takeWhile (· != byte)).length]? = some byte := by
  induction bytes with
  | nil => cases stops
  | cons first rest induction =>
    by_cases same : first = byte
    · rw [List.takeWhile_cons_of_neg (by simp [same]), same]
      rfl
    · have differs : (first != byte) = true := bne_iff_ne.mpr same
      rw [List.takeWhile_cons_of_pos (by exact differs), List.length_cons,
        List.length_cons] at stops
      rw [List.takeWhile_cons_of_pos (by exact differs), List.length_cons,
        List.getElem?_cons_succ]
      exact induction (Nat.lt_of_succ_lt_succ stops)

/-- A cut is made behind a line feed or at the end. -/
theorem behindLine_spec {front back : Text} {cut : Nat} (after : (utf8 front).length ≤ cut)
    (inside : cut ≤ (utf8 (front ++ back)).length) :
    ∃ piece rest, back = piece ++ rest ∧
      (utf8 (front ++ piece)).length = behindLine (utf8 (front ++ back)) cut ∧
      (rest ≠ [] → EndsLine piece) := by
  have bounded := (List.takeWhile_sublist (l := (utf8 (front ++ back)).drop cut)
    (fun byte => byte != (10 : UInt8))).length_le
  rw [List.length_drop] at bounded
  rw [behindLine]
  split_ifs with found
  · have feed : (utf8 (front ++ back))[cut +
        (((utf8 (front ++ back)).drop cut).takeWhile (· != 10)).length]? = some 10 := by
      rw [← List.getElem?_drop]
      apply getElem?_takeWhile_ne
      rw [List.length_drop]
      omega
    obtain ⟨before, behind, same, width⟩ := exists_of_lineFeed feed
    have same' : front ++ back = (before ++ ['\n']) ++ behind := by
      rw [same, List.append_assoc]
      rfl
    have wider : (utf8 (before ++ ['\n'])).length = (utf8 before).length + 1 := by
      rw [utf8_append, List.length_append]
      rfl
    obtain ⟨piece, isOther, isBack⟩ := exists_append_of_length_le same' (by omega)
    refine ⟨piece, behind, isBack, ?_, fun _ => ?_⟩
    · rw [← isOther, wider, width]
    · have last : (front ++ piece).getLast? = some '\n' := by
        rw [← isOther, List.getLast?_concat]
      cases piece with
      | nil =>
        rw [List.append_nil] at isOther
        rw [isOther] at wider
        omega
      | cons char more => rwa [List.getLast?_append_cons] at last
  · refine ⟨back, [], (List.append_nil _).symm, ?_, fun more => absurd rfl more⟩
    omega

/-- What is cut off so far: the beginning of the content, line feeds at the cuts. -/
def Split (content : Text) (start : Nat) (chunks : List Text) : Prop :=
  ∃ back, content = chunks.flatten ++ back ∧ (utf8 chunks.flatten).length = start ∧
    (∀ chunk ∈ chunks.dropLast, EndsLine chunk) ∧ (back ≠ [] → ∀ chunk ∈ chunks, EndsLine chunk)

section Splitting

variable {content : Text} {start : Nat} {chunks : List Text}

theorem Split.le (split : Split content start chunks) : start ≤ (utf8 content).length := by
  obtain ⟨back, rfl, width, _⟩ := split
  rw [utf8_append, List.length_append, width]
  exact Nat.le_add_right _ _

/-- One more chunk, from where the last one ends. -/
theorem Split.push (split : Split content start chunks) {stop : Nat} (more : start < stop)
    {piece rest : Text} (same : content = chunks.flatten ++ piece ++ rest)
    (width : (utf8 (chunks.flatten ++ piece)).length = stop)
    (ends : rest ≠ [] → EndsLine piece) :
    sliceBetween content start stop = some piece ∧ Split content stop (chunks ++ [piece]) := by
  obtain ⟨back, isContent, isStart, earlier, all⟩ := split
  rw [isContent, List.append_assoc] at same
  obtain rfl := List.append_cancel_left same
  have flat : (chunks ++ [piece]).flatten = chunks.flatten ++ piece := by simp
  have nonempty : piece ++ rest ≠ [] := by
    intro none
    obtain ⟨rfl, rfl⟩ := List.append_eq_nil_iff.mp none
    rw [List.append_nil] at width
    omega
  have whole := all nonempty
  refine ⟨?_, rest, ?_, ?_, ?_, ?_⟩
  · rw [isContent, ← isStart, ← width, ← List.append_assoc]
    exact sliceBetween_append _ _ _
  · rw [flat, isContent, List.append_assoc]
  · rw [flat, width]
  · rw [List.dropLast_concat]
    exact whole
  · intro further chunk member
    rcases List.mem_append.mp member with member | member
    · exact whole chunk member
    · rw [List.mem_singleton.mp member]
      exact ends further

theorem splitFrom_spec {n : Nat} (left : Nat) : ∀ {start : Nat} {chunks : List Text},
    left < n → Split content start chunks →
    ∃ stop cut, splitFrom content n left start chunks = some (stop, cut) ∧
      Split content stop cut := by
  induction left with
  | zero => exact fun _ split => ⟨_, _, rfl, split⟩
  | succ left induction =>
    intro start chunks few split
    rw [splitFrom]
    by_cases past : (utf8 content).length ≤ start
    · exact ⟨_, _, if_pos past, split⟩
    · rw [if_neg past]
      dsimp only
      split_ifs with more
      · obtain ⟨back, rfl, width, _⟩ := id split
        have product : (utf8 (chunks.flatten ++ back)).length * (n - (left + 1)) % 2 ^ 64 / n ≤
            (utf8 (chunks.flatten ++ back)).length := by
          have wrapped := Nat.mod_le
            ((utf8 (chunks.flatten ++ back)).length * (n - (left + 1))) (2 ^ 64)
          have factor : (utf8 (chunks.flatten ++ back)).length * (n - (left + 1)) ≤
              (utf8 (chunks.flatten ++ back)).length * n := Nat.mul_le_mul_left _ (Nat.sub_le _ _)
          exact Nat.div_le_of_le_mul (Nat.mul_comm n _ ▸ wrapped.trans factor)
        obtain ⟨piece, rest, rfl, stop, ends⟩ := behindLine_spec
          (width.le.trans (Nat.le_max_right _ _)) (Nat.max_le.mpr ⟨product, split.le⟩)
        obtain ⟨sliced, next⟩ := split.push more (List.append_assoc _ _ _).symm stop ends
        rw [sliced]
        exact induction (Nat.lt_of_succ_lt few) next
      · exact induction (Nat.lt_of_succ_lt few) split

end Splitting

theorem reserveSlices_eq_some {count : Nat} : reserveSlices count = some () ↔ count < 2 ^ 59 := by
  rw [reserveSlices]
  split_ifs <;> simp <;> omega

/-- The slices make up the content, and each but the last ends in a line feed. -/
def Slices (content : Text) (chunks : List Text) : Prop :=
  chunks.flatten = content ∧ ∀ chunk ∈ chunks.dropLast, EndsLine chunk

theorem slices_single (content : Text) : Slices content [content] := by
  refine ⟨by simp, ?_⟩
  rintro chunk member
  cases member

theorem Split.slices {content : Text} {chunks : List Text}
    (split : Split content (utf8 content).length chunks) : Slices content chunks := by
  obtain ⟨back, same, width, ends, _⟩ := split
  have empty : back = [] := by
    apply eq_nil_of_utf8_length
    rw [same, utf8_append, List.length_append] at width
    omega
  rw [empty, List.append_nil] at same
  exact ⟨same.symm, ends⟩

theorem lastSlice_spec {content : Text} {start : Nat} {chunks : List Text}
    (split : Split content start chunks) :
    ∃ all, lastSlice content start chunks = some all ∧ Slices content all := by
  rw [lastSlice]
  split_ifs with more
  · obtain ⟨back, same, _⟩ := id split
    have whole : content = chunks.flatten ++ back ++ [] := same.trans (List.append_nil _).symm
    obtain ⟨sliced, all⟩ := split.push more whole
      (congrArg (fun text => (utf8 text).length) same.symm) (fun further => absurd rfl further)
    rw [sliced]
    exact ⟨_, rfl, all.slices⟩
  · have same : start = (utf8 content).length := by
      have bound := split.le
      omega
    exact ⟨chunks, rfl, (same ▸ split).slices⟩

/-- The splitter fails on nothing but a reservation that is too large. -/
theorem splitLines_iff (content : Text) (n : Nat) :
    (∃ chunks, splitLines content n = some chunks ∧ Slices content chunks) ↔
      n ≤ 1 ∨ content = [] ∨ n < 2 ^ 59 := by
  rw [splitLines, ← or_assoc]
  split_ifs with single
  · exact iff_of_true ⟨_, rfl, slices_single content⟩ (.inl single)
  · rw [or_iff_right single, ← reserveSlices_eq_some]
    cases reserved : reserveSlices n with
    | none => simp
    | some _ =>
      refine iff_of_true ?_ rfl
      have fresh : Split content 0 [] :=
        ⟨content, rfl, rfl, by rintro chunk ⟨⟩, by rintro - chunk ⟨⟩⟩
      obtain ⟨start, cut, run, split⟩ :=
        splitFrom_spec (n - 1) (show n - 1 < n by omega) fresh
      obtain ⟨chunks, all, isContent, ends⟩ := lastSlice_spec split
      dsimp only [Option.bind_eq_bind, Option.bind_some]
      rw [run]
      dsimp only [Option.bind_some]
      rw [all]
      dsimp only [Option.bind_some]
      rw [if_neg]
      · exact ⟨_, rfl, isContent, ends⟩
      · rintro rfl
        exact single (.inr isContent.symm)

/-! ## Lines -/

open NTriples in
/-- Lines end where the text is cut behind a line feed. -/
theorem lines_append {front : Text} (ends : EndsLine front) (back : Text) :
    lines (front ++ back) = lines front ++ lines back := by
  obtain ⟨start, rfl⟩ := List.getLast?_eq_some_iff.mp ends
  have cut : (start ++ ['\n'] ++ back).splitOn '\n' = start.splitOn '\n' ++ back.splitOn '\n' := by
    rw [List.append_assoc]
    exact List.splitOn_append_cons_self start back
  have alone : (start ++ ['\n']).splitOn '\n' = start.splitOn '\n' ++ [[]] :=
    List.splitOn_append_cons_self start []
  have nonempty := List.splitOn_ne_nil '\n' back
  have last : (start.splitOn '\n' ++ back.splitOn '\n').getLastD [] =
      (back.splitOn '\n').getLastD [] := by
    rw [List.getLastD_eq_getLast?, List.getLast?_append_of_ne_nil _ nonempty,
      List.getLastD_eq_getLast?]
  rw [lines, cut, lines, alone, lines, List.dropLast_concat,
    List.dropLast_append_of_ne_nil nonempty, last, List.map_append, List.getLastD_concat, if_pos rfl]
  split_ifs
  · rfl
  · rw [List.append_assoc]

/-- The triples of so many lines, if every line has one or is empty. -/
def readAll (unicode : Alphanumeric) (texts : List Text) : Option (List Triple) :=
  (texts.mapM fun line => (NTriples.parseLine unicode line).toOption).map List.reduceOption

theorem readAll_append (unicode : Alphanumeric) (front back : List Text) :
    readAll unicode (front ++ back) =
      (readAll unicode front).bind fun read => (readAll unicode back).map (read ++ ·) := by
  rw [readAll, List.mapM_append, readAll, readAll]
  cases front.mapM fun line => (NTriples.parseLine unicode line).toOption with
  | none => rfl
  | some first =>
    cases back.mapM fun line => (NTriples.parseLine unicode line).toOption with
    | none => rfl
    | some second => exact congrArg some (List.reduceOption_append first second)

theorem readAll_cons (unicode : Alphanumeric) (line : Text) (rest : List Text) :
    readAll unicode (line :: rest) = (NTriples.parseLine unicode line).toOption.bind fun triple =>
      (readAll unicode rest).map (triple.toList ++ ·) := by
  rw [readAll, List.mapM_cons, readAll]
  cases (NTriples.parseLine unicode line).toOption with
  | none => rfl
  | some triple =>
    dsimp only [Option.bind_eq_bind, Option.bind_some]
    cases rest.mapM fun line => (NTriples.parseLine unicode line).toOption with
    | none => rfl
    | some read => cases triple <;> rfl

theorem toOption_foldlM (unicode : Alphanumeric)
    {step : List Triple → Text × Nat → Except (Nat × Problem) (List Triple)}
    (reads : ∀ triples line number, (step triples (line, number)).toOption =
      (NTriples.parseLine unicode line).toOption.map fun triple => triples ++ triple.toList)
    (texts : List Text) : ∀ (number : Nat) (triples : List Triple),
    ((texts.zipIdx number).foldlM step triples).toOption =
      (readAll unicode texts).map (triples ++ ·) := by
  induction texts with
  | nil => exact fun number triples => congrArg some (List.append_nil triples).symm
  | cons line texts induction =>
    intro number triples
    rw [List.zipIdx_cons, List.foldlM_cons, toOption_bind, reads, readAll_cons]
    cases (NTriples.parseLine unicode line).toOption with
    | none => rfl
    | some triple =>
      dsimp only [Option.map_some, Option.bind_some]
      rw [induction, Option.map_map]
      exact congrArg (Option.map · _) (funext fun read => List.append_assoc _ _ _)

theorem toOption_parseStr (unicode : Alphanumeric) (content : Text) :
    (NTriples.parseStr unicode content).toOption = readAll unicode (NTriples.lines content) := by
  rw [NTriples.parseStr, toOption_foldlM unicode]
  · simp
  · intro triples line number
    dsimp only
    cases NTriples.parseLine unicode line <;> rfl

/-! ## Loads -/

/-- `build_from_ntriples_str` with one parser. -/
def buildSequential (unicode : Alphanumeric) (content : Text) :
    Option (Except (Nat × Problem) Session) :=
  match NTriples.parseStr unicode content with
  | .ok triples => (Session.build triples).map .ok
  | .error problem => some (.error problem)

/-- The parts are encoded in their order; the outer `none` is a dictionary that is full. -/
def encodeChunks : Dictionary → List IdTriple → List (Except (Nat × Problem) (List Triple)) →
    Option (Except (Nat × Problem) (Dictionary × List IdTriple))
  | dict, ids, [] => some (.ok (dict, ids))
  | _, _, .error problem :: _ => some (.error problem)
  | dict, ids, .ok triples :: rest => do
    let (dict, more) ← encodeAll dict triples
    encodeChunks dict (ids ++ more) rest

/-- `build_from_ntriples_str_parallel`. -/
def buildParallel (unicode : Alphanumeric) (content : Text) (threads : Nat) :
    Option (Except (Nat × Problem) Session) := do
  let chunks ← splitLines content (max threads 1)
  let encoded ← encodeChunks .empty [] (chunks.map (NTriples.parseStr unicode))
  return encoded.map fun (dict, ids) =>
    { Session.new false false with dict, store := TripleStore.new.bulkLoad ids }

/-- A line without its ending. -/
def chomp (line : Text) : Text :=
  if line.getLast? = some '\n' then
    let line := line.dropLast
    if line.getLast? = some '\r' then line.dropLast else line
  else line

/-- `BufRead::lines`; `none` is a line that is not UTF-8. -/
def fileLines : Nat → Bytes → List (Option Text)
  | 0, _ => []
  | fuel + 1, bytes =>
    if bytes = [] then []
    else
      let cut := (bytes.takeWhile (· != 10)).length + 1
      (fromUtf8 (bytes.take cut)).map chomp :: fileLines fuel (bytes.drop cut)

inductive BulkError where
  | notUtf8
  | syntactic (line : Nat) (problem : Problem)

/-- What `build_from_ntriples_batched` holds while it reads. -/
structure Loading where
  dict : Dictionary
  buf : List IdTriple
  store : TripleStore

def Loading.add (batch : Nat) (loading : Loading) (triple : Triple) : Option Loading := do
  let (dict, id) ← loading.dict.encodeTriple triple
  let buf := loading.buf ++ [id]
  return if batch ≤ buf.length then { dict, buf := [], store := loading.store.bulkLoad buf }
    else { dict, buf, store := loading.store }

def loadLines (unicode : Alphanumeric) (batch : Nat) :
    Nat → List (Option Text) → Loading → Option (Except BulkError Loading)
  | _, [], loading => some (.ok loading)
  | _, none :: _, _ => some (.error .notUtf8)
  | number, some line :: rest, loading =>
    match NTriples.parseLine unicode line with
    | .error failure => some (.error (.syntactic number failure.problem))
    | .ok none => loadLines unicode batch (number + 1) rest loading
    | .ok (some triple) => do
      loadLines unicode batch (number + 1) rest (← loading.add batch triple)

def Loading.finish (loading : Loading) : Session :=
  { Session.new false false with
    dict := loading.dict
    store := if loading.buf = [] then loading.store else loading.store.bulkLoad loading.buf }

/-- `build_from_ntriples_batched`, of a file with these bytes. -/
def buildBatched (unicode : Alphanumeric) (bytes : Bytes) (batch : Nat) :
    Option (Except BulkError Session) :=
  (loadLines unicode (max batch 1) 1 (fileLines bytes.length bytes) ⟨.empty, [], .new⟩).map
    (Except.map Loading.finish)

theorem encodeAll_cons (dict : Dictionary) (triple : Triple) (rest : List Triple) :
    encodeAll dict (triple :: rest) = (dict.encodeTriple triple).bind fun first =>
      (encodeAll first.1 rest).map fun second => (second.1, first.2 :: second.2) := by
  rw [encodeAll]
  cases dict.encodeTriple triple with
  | none => rfl
  | some first =>
    dsimp only [Option.bind_eq_bind, Option.bind_some]
    cases encodeAll first.1 rest <;> rfl

theorem encodeAll_append (front back : List Triple) : ∀ dict : Dictionary,
    encodeAll dict (front ++ back) = (encodeAll dict front).bind fun first =>
      (encodeAll first.1 back).map fun second => (second.1, first.2 ++ second.2) := by
  induction front with
  | nil =>
    intro dict
    change encodeAll dict back = (encodeAll dict back).map id
    rw [Option.map_id, id]
  | cons triple front induction =>
    intro dict
    rw [List.cons_append, encodeAll_cons, encodeAll_cons]
    cases dict.encodeTriple triple with
    | none => rfl
    | some encoded =>
      rw [Option.bind_some, Option.bind_some, induction]
      cases encodeAll encoded.1 front with
      | none => rfl
      | some first =>
        rw [Option.bind_some, Option.map_some, Option.bind_some, Option.map_map]
        rfl

/-- What the chunks hold together, if every parser succeeds. -/
def gathered (parsed : List (Except (Nat × Problem) (List Triple))) : Option (List Triple) :=
  (parsed.mapM Except.toOption).map List.flatten

theorem gathered_cons (first : Except (Nat × Problem) (List Triple))
    (rest : List (Except (Nat × Problem) (List Triple))) :
    gathered (first :: rest) = first.toOption.bind fun triples =>
      (gathered rest).map (triples ++ ·) := by
  rw [gathered, List.mapM_cons, gathered]
  cases first.toOption with
  | none => rfl
  | some triples =>
    dsimp only [Option.bind_eq_bind, Option.bind_some]
    cases rest.mapM Except.toOption <;> rfl

theorem encodeChunks_of_gathered (parsed : List (Except (Nat × Problem) (List Triple))) :
    ∀ {triples : List Triple} (dict : Dictionary) (ids : List IdTriple),
    gathered parsed = some triples →
    encodeChunks dict ids parsed =
      (encodeAll dict triples).map fun encoded => .ok (encoded.1, ids ++ encoded.2) := by
  induction parsed with
  | nil =>
    intro triples dict ids all
    obtain rfl := Option.some.inj all
    exact congrArg (fun ids => some (Except.ok (dict, ids))) (List.append_nil ids).symm
  | cons first rest induction =>
    intro triples dict ids all
    rw [gathered_cons] at all
    cases first with
    | error problem => cases all
    | ok triples =>
      obtain ⟨later, gatheredRest, rfl⟩ := Option.map_eq_some_iff.mp all
      rw [encodeChunks, encodeAll_append]
      cases encodeAll dict triples with
      | none => rfl
      | some encoded =>
        dsimp only [Option.bind_eq_bind, Option.bind_some]
        rw [induction encoded.1 (ids ++ encoded.2) gatheredRest, Option.map_map]
        exact congrArg (Option.map · _) (funext fun second =>
          congrArg (fun ids => Except.ok (second.1, ids)) (List.append_assoc _ _ _))

theorem encodeChunks_ne_ok (parsed : List (Except (Nat × Problem) (List Triple))) :
    ∀ (dict : Dictionary) (ids : List IdTriple), gathered parsed = none →
    ∀ encoded, encodeChunks dict ids parsed ≠ some (.ok encoded) := by
  induction parsed with
  | nil =>
    intro dict ids missing
    cases missing
  | cons first rest induction =>
    intro dict ids missing encoded
    rw [gathered_cons] at missing
    cases first with
    | error problem =>
      intro impossible
      cases impossible
    | ok triples =>
      rw [encodeChunks]
      cases encodeAll dict triples with
      | none =>
        intro impossible
        cases impossible
      | some first => exact induction first.1 _ (Option.map_eq_none_iff.mp missing) encoded

/-- Cut behind line feeds, a document holds what it holds as a whole. -/
theorem gathered_of_slices (unicode : Alphanumeric) (chunks : List Text) :
    ∀ {content : Text}, Slices content chunks →
    gathered (chunks.map (NTriples.parseStr unicode)) =
      readAll unicode (NTriples.lines content) := by
  induction chunks with
  | nil =>
    rintro content ⟨rfl, _⟩
    rfl
  | cons chunk rest induction =>
    rintro content ⟨rfl, ends⟩
    rw [List.map_cons, gathered_cons, toOption_parseStr, List.flatten_cons]
    cases rest with
    | nil =>
      rw [List.flatten_nil, List.append_nil]
      change (readAll unicode (NTriples.lines chunk)).bind
        (fun triples => some (triples ++ [])) = _
      simp
    | cons next rest =>
      rw [List.dropLast_cons_cons, List.forall_mem_cons] at ends
      rw [lines_append ends.1, readAll_append, induction ⟨rfl, ends.2⟩]

theorem not_mem_utf8 {line : Text} (absent : '\n' ∉ line) : (10 : UInt8) ∉ utf8 line := by
  intro member
  obtain ⟨index, found⟩ := List.getElem?_of_mem member
  obtain ⟨front, back, rfl, _⟩ := exists_of_lineFeed found
  exact absent (List.mem_append_right _ List.mem_cons_self)

theorem takeWhile_utf8 {line : Text} (absent : '\n' ∉ line) (rest : Text) :
    (utf8 (line ++ '\n' :: rest)).takeWhile (· != 10) = utf8 line := by
  have feed : utf8 (line ++ '\n' :: rest) = utf8 line ++ 10 :: utf8 rest := utf8_append _ _
  have all : ∀ byte ∈ utf8 line, (byte != (10 : UInt8)) = true := by
    intro byte member
    rw [bne_iff_ne]
    rintro rfl
    exact not_mem_utf8 absent member
  rw [feed, List.takeWhile_append_of_pos all]
  exact List.append_nil _

theorem lines_feed {line : Text} (absent : '\n' ∉ line) :
    NTriples.lines (line ++ ['\n']) = [chomp (line ++ ['\n'])] := by
  have pieces : (line ++ ['\n']).splitOn '\n' = [line, []] := by
    rw [List.splitOn_append_cons_self line [], List.splitOn_eq_singleton absent]
    rfl
  rw [NTriples.lines, pieces, chomp, if_pos (List.getLast?_concat ..), List.dropLast_concat]
  rfl

theorem lines_last {line : Text} (absent : '\n' ∉ line) (nonempty : line ≠ []) :
    NTriples.lines line = [chomp line] := by
  have noFeed : line.getLast? ≠ some '\n' := fun last => absent (List.mem_of_getLast? last)
  rw [NTriples.lines, List.splitOn_eq_singleton absent, chomp, if_neg noFeed]
  exact if_neg nonempty

/-- A file that holds a text has its lines. -/
theorem fileLines_eq (fuel : Nat) : ∀ {content : Text}, (utf8 content).length ≤ fuel →
    fileLines fuel (utf8 content) = (NTriples.lines content).map some := by
  induction fuel with
  | zero =>
    intro content enough
    obtain rfl := eq_nil_of_utf8_length (Nat.le_zero.mp enough)
    rfl
  | succ fuel induction =>
    intro content enough
    rw [fileLines]
    by_cases feed : '\n' ∈ content
    · obtain ⟨line, rest, rfl, absent⟩ := List.eq_append_cons_of_mem feed
      have same : line ++ '\n' :: rest = (line ++ ['\n']) ++ rest := by simp
      have width : (utf8 (line ++ ['\n'])).length = (utf8 line).length + 1 := by
        rw [utf8_append, List.length_append]
        rfl
      have bytes : utf8 (line ++ '\n' :: rest) = utf8 (line ++ ['\n']) ++ utf8 rest := by
        rw [same, utf8_append]
      have few : (utf8 rest).length ≤ fuel := by
        rw [bytes, List.length_append, width] at enough
        omega
      have nonempty : utf8 (line ++ '\n' :: rest) ≠ [] := by
        intro none
        rw [none] at bytes
        have lengths := congrArg List.length bytes
        rw [List.length_append, width, List.length_nil] at lengths
        omega
      rw [if_neg nonempty, takeWhile_utf8 absent, bytes, ← width]
      dsimp only
      rw [List.take_left, List.drop_left, fromUtf8_utf8, induction few, same,
        lines_append (List.getLast?_concat ..), lines_feed absent]
      rfl
    · by_cases empty : content = []
      · rw [empty]
        rfl
      · have nonempty : utf8 content ≠ [] := by
          intro none
          exact empty (eq_nil_of_utf8_length (congrArg List.length none))
        have all : (utf8 content).takeWhile (· != 10) = utf8 content := by
          rw [List.takeWhile_eq_self_iff]
          intro byte member
          rw [bne_iff_ne]
          rintro rfl
          exact not_mem_utf8 feed member
        rw [if_neg nonempty, all]
        dsimp only
        rw [List.take_of_length_le (Nat.le_succ _),
          List.drop_eq_nil_of_le (Nat.le_succ _), fromUtf8_utf8, lines_last feed empty]
        cases fuel <;> rfl

/-! ## Batches -/

section Batches

variable {unicode : Alphanumeric} {batch : Nat}

theorem loadLines_of_readAll (texts : List Text) :
    ∀ {triples : List Triple} (number : Nat) (loading : Loading),
    readAll unicode texts = some triples →
    loadLines unicode batch number (texts.map some) loading =
      (triples.foldlM (Loading.add batch) loading).map .ok := by
  induction texts with
  | nil =>
    intro triples number loading read
    obtain rfl := Option.some.inj read
    rfl
  | cons line rest induction =>
    intro triples number loading read
    rw [readAll_cons] at read
    rw [List.map_cons, loadLines]
    cases parsed : NTriples.parseLine unicode line with
    | error failure =>
      rw [parsed] at read
      cases read
    | ok triple =>
      rw [parsed] at read
      obtain ⟨later, readRest, rfl⟩ := Option.map_eq_some_iff.mp read
      cases triple with
      | none => exact induction (number + 1) loading readRest
      | some triple =>
        change (loading.add batch triple).bind _ = Option.map _
          ((loading.add batch triple).bind fun loading =>
            later.foldlM (Loading.add batch) loading)
        cases loading.add batch triple with
        | none => rfl
        | some next => exact induction (number + 1) next readRest

theorem loadLines_ne_ok (texts : List Text) : ∀ (number : Nat) (loading : Loading),
    readAll unicode texts = none →
    ∀ loaded, loadLines unicode batch number (texts.map some) loading ≠ some (.ok loaded) := by
  induction texts with
  | nil =>
    intro number loading missing
    cases missing
  | cons line rest induction =>
    intro number loading missing loaded
    rw [readAll_cons] at missing
    rw [List.map_cons, loadLines]
    cases parsed : NTriples.parseLine unicode line with
    | error failure =>
      intro impossible
      cases impossible
    | ok triple =>
      rw [parsed] at missing
      have restMissing := Option.map_eq_none_iff.mp missing
      cases triple with
      | none => exact induction (number + 1) loading restMissing loaded
      | some triple =>
        change (loading.add batch triple).bind _ ≠ _
        cases loading.add batch triple with
        | none =>
          intro impossible
          cases impossible
        | some next => exact induction (number + 1) next restMissing loaded

/-- What a loading holds: what is in its store and what is not there yet, in the order read. -/
def Loading.Holds (loading : Loading) (ids : List IdTriple) : Prop :=
  ∃ loaded, Refines loading.store loaded.toFinset ∧ loaded ++ loading.buf = ids

theorem Loading.Holds.add {loading : Loading} {ids : List IdTriple} (holds : loading.Holds ids)
    {triple : Triple} {encoded : Dictionary × IdTriple}
    (isEncoded : loading.dict.encodeTriple triple = some encoded) :
    ∃ next, loading.add batch triple = some next ∧ next.dict = encoded.1 ∧
      next.Holds (ids ++ [encoded.2]) := by
  obtain ⟨loaded, refines, rfl⟩ := holds
  rw [Loading.add, isEncoded]
  dsimp only [Option.bind_eq_bind, Option.bind_some]
  split_ifs with full
  · refine ⟨_, rfl, rfl, loaded ++ (loading.buf ++ [encoded.2]), ?_, ?_⟩
    · rw [List.toFinset_append]
      exact refines.bulkLoad _
    · rw [List.append_nil, List.append_assoc]
  · exact ⟨_, rfl, rfl, loaded, refines, (List.append_assoc _ _ _).symm⟩

theorem foldlM_add (batch : Nat) (triples : List Triple) : ∀ {loading : Loading} {ids : List IdTriple},
    loading.Holds ids →
    (encodeAll loading.dict triples = none → triples.foldlM (Loading.add batch) loading = none) ∧
    ∀ encoded, encodeAll loading.dict triples = some encoded →
      ∃ last, triples.foldlM (Loading.add batch) loading = some last ∧ last.dict = encoded.1 ∧
        last.Holds (ids ++ encoded.2) := by
  induction triples with
  | nil =>
    intro loading ids holds
    constructor
    · intro impossible
      cases impossible
    · intro encoded encodes
      obtain rfl := Option.some.inj encodes
      exact ⟨loading, rfl, rfl, (List.append_nil ids).symm ▸ holds⟩
  | cons triple rest induction =>
    intro loading ids holds
    rw [encodeAll_cons, List.foldlM_cons]
    cases isEncoded : loading.dict.encodeTriple triple with
    | none =>
      have stuck : loading.add batch triple = none := by
        rw [Loading.add, isEncoded]
        rfl
      rw [stuck]
      refine ⟨fun _ => rfl, fun encoded impossible => ?_⟩
      cases impossible
    | some first =>
      obtain ⟨next, added, dict, nextHolds⟩ := holds.add isEncoded
      obtain ⟨stops, goesOn⟩ := induction nextHolds
      rw [added, Option.bind_some, ← dict]
      refine ⟨fun none => stops (Option.map_eq_none_iff.mp none), ?_⟩
      rintro encoded encodes
      obtain ⟨second, encodesRest, rfl⟩ := Option.map_eq_some_iff.mp encodes
      obtain ⟨last, run, lastDict, lastHolds⟩ := goesOn second encodesRest
      rw [List.append_assoc] at lastHolds
      exact ⟨last, run, lastDict, lastHolds⟩

theorem Loading.Holds.finish {loading : Loading} {ids : List IdTriple} (holds : loading.Holds ids) :
    Refines loading.finish.store ids.toFinset := by
  obtain ⟨loaded, refines, rfl⟩ := holds
  rw [Loading.finish, List.toFinset_append]
  dsimp only
  split_ifs with empty
  · rw [empty, List.toFinset_nil, Finset.union_empty]
    exact refines
  · exact refines.bulkLoad _

end Batches

/-! ## One result -/

/-- The same ids, and stores that hold the same triples. -/
structure SameLoad (one other : Session) : Prop where
  dict : one.dict = other.dict
  store : ∃ triples, Refines one.store triples ∧ Refines other.store triples

/-- However a document is loaded, what is loaded is what one parser and one encoder give. -/
structure LoadsAgree (unicode : Alphanumeric) (content : Text) (threads batch : Nat) : Prop where
  slices : ∃ chunks, splitLines content threads = some chunks ∧ Slices content chunks
  parallel : ∀ triples, NTriples.parseStr unicode content = .ok triples →
    buildParallel unicode content threads = (Session.build triples).map .ok
  parallelRefused : ∀ problem, NTriples.parseStr unicode content = .error problem →
    ∀ s, buildParallel unicode content threads ≠ some (.ok s)
  batched : ∀ triples, NTriples.parseStr unicode content = .ok triples →
    ∀ s, Session.build triples = some s →
      ∃ other, buildBatched unicode (utf8 content) batch = some (.ok other) ∧ SameLoad other s
  batchedFull : ∀ triples, NTriples.parseStr unicode content = .ok triples →
    Session.build triples = none → buildBatched unicode (utf8 content) batch = none
  batchedRefused : ∀ problem, NTriples.parseStr unicode content = .error problem →
    ∀ s, buildBatched unicode (utf8 content) batch ≠ some (.ok s)

section Agreement

variable {unicode : Alphanumeric} {content : Text} {triples : List Triple} {problem : Nat × Problem}

theorem readAll_of_ok (parsed : NTriples.parseStr unicode content = .ok triples) :
    readAll unicode (NTriples.lines content) = some triples := by
  rw [← toOption_parseStr, parsed]
  rfl

theorem readAll_of_error (parsed : NTriples.parseStr unicode content = .error problem) :
    readAll unicode (NTriples.lines content) = none := by
  rw [← toOption_parseStr, parsed]
  rfl

theorem buildParallel_of_slices {threads : Nat} {chunks : List Text}
    (cut : splitLines content (max threads 1) = some chunks) :
    buildParallel unicode content threads =
      (encodeChunks .empty [] (chunks.map (NTriples.parseStr unicode))).map
        (Except.map fun encoded => { Session.new false false with
          dict := encoded.1, store := TripleStore.new.bulkLoad encoded.2 }) := by
  rw [buildParallel, cut]
  exact Option.map_eq_bind.symm

variable (unicode content)

/-- What `build_from_ntriples_batched` starts from. -/
theorem holds_empty : (Loading.mk .empty [] .new).Holds [] := ⟨[], refines_new, rfl⟩

theorem buildBatched_eq (batch : Nat) :
    buildBatched unicode (utf8 content) batch =
      (loadLines unicode (max batch 1) 1 ((NTriples.lines content).map some)
        ⟨.empty, [], .new⟩).map (Except.map Loading.finish) := by
  rw [buildBatched, fileLines_eq _ (le_refl _)]

variable {unicode content}

theorem buildBatched_ne_ok (missing : readAll unicode (NTriples.lines content) = none) (batch : Nat)
    (s : Session) : buildBatched unicode (utf8 content) batch ≠ some (.ok s) := by
  intro built
  rw [buildBatched_eq] at built
  obtain ⟨result, run, finished⟩ := Option.map_eq_some_iff.mp built
  cases result with
  | error failure => cases finished
  | ok loaded => exact loadLines_ne_ok _ 1 _ missing loaded run

theorem buildBatched_of_readAll (read : readAll unicode (NTriples.lines content) = some triples)
    (batch : Nat) : buildBatched unicode (utf8 content) batch =
      (triples.foldlM (Loading.add (max batch 1)) ⟨.empty, [], .new⟩).map
        fun loaded => .ok loaded.finish := by
  rw [buildBatched_eq, loadLines_of_readAll _ 1 _ read, Option.map_map]
  rfl

/-- The loads agree unless there are too many threads to reserve a slice for each. -/
theorem loadsAgree_iff (unicode : Alphanumeric) (content : Text) (threads batch : Nat) :
    LoadsAgree unicode content threads batch ↔
      threads ≤ 1 ∨ content = [] ∨ threads < 2 ^ 59 := by
  constructor
  · exact fun agree => (splitLines_iff content threads).mp agree.slices
  · intro few
    have cuts : ∃ chunks, splitLines content (max threads 1) = some chunks ∧
        Slices content chunks := by
      rw [splitLines_iff]
      rcases few with single | empty | few
      · exact .inl (Nat.max_le.mpr ⟨single, le_refl 1⟩)
      · exact .inr (.inl empty)
      · exact .inr (.inr (Nat.max_lt.mpr ⟨few, by decide⟩))
    obtain ⟨chunks, cut, slices⟩ := cuts
    have gathers := gathered_of_slices unicode chunks slices
    exact {
      slices := (splitLines_iff content threads).mpr few
      parallel := fun triples parsed => by
        rw [readAll_of_ok parsed] at gathers
        rw [buildParallel_of_slices cut, encodeChunks_of_gathered _ _ _ gathers, Session.build,
          Option.map_map, Option.map_map]
        rfl
      parallelRefused := fun problem parsed s built => by
        rw [readAll_of_error parsed] at gathers
        rw [buildParallel_of_slices cut] at built
        obtain ⟨result, run, finished⟩ := Option.map_eq_some_iff.mp built
        cases result with
        | error failure => cases finished
        | ok encoded => exact encodeChunks_ne_ok _ _ _ gathers encoded run
      batched := fun triples parsed s built => by
        obtain ⟨encoded, encodes, rfl⟩ := Option.map_eq_some_iff.mp built
        obtain ⟨last, run, dict, holds⟩ :=
          (foldlM_add (max batch 1) triples holds_empty).2 encoded encodes
        refine ⟨last.finish, ?_, dict, _, holds.finish, ?_⟩
        · rw [buildBatched_of_readAll (readAll_of_ok parsed), run]
          rfl
        · have loads := refines_new.bulkLoad encoded.2
          rwa [Finset.empty_union] at loads
      batchedFull := fun triples parsed full => by
        have stuck := (foldlM_add (max batch 1) triples holds_empty).1
          (Option.map_eq_none_iff.mp full)
        rw [buildBatched_of_readAll (readAll_of_ok parsed), stuck]
        rfl
      batchedRefused := fun problem parsed => buildBatched_ne_ok (readAll_of_error parsed) batch }

theorem not_loadsAgree : ¬ ∀ unicode content threads batch,
    LoadsAgree unicode content threads batch := by
  intro all
  have few := (splitLines_iff ['a'] (2 ^ 64 - 1)).mp (all asciiOnly ['a'] (2 ^ 64 - 1) 1).slices
  simp at few

end Agreement

end GStore.Db
