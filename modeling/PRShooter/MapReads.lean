import PRShooter.MapText

/-!
# What `getMap` reads of a line

`getMap` again, with the index of every value it reads and the two ways in which it may fail apart.
The lengths of the lines are never checked: the loop over a border line tests `i` and reads `i + 1`
too, and a wall and an obstacle read eight and three values of whatever there is. So the values read
are all there exactly if every line has enough of them (`readsContained_iff`).
-/

namespace PRShooter

/-- How the reading of a map ends early. -/
inductive ReadError where
  /-- `std::stod` throws. -/
  | stod
  /-- `values[i]` with an `i` that is not below `values.size()`. -/
  | pastEnd
  deriving DecidableEq

/-- The value, if it is there. -/
def orPastEnd {α : Type} : Option α → Except ReadError α
  | some a => .ok a
  | none => .error .pastEnd

section Reads

variable {D : Type}

/-- `values[i]`. -/
def valueAt (values : List D) (i : ℕ) : Except ReadError D := orPastEnd values[i]?

/-- The loop `for(size_t i = 0; i < values.size(); i += 2)` from `i` on. -/
def borderLoop (values : List D) (i : ℕ) (borders : List (Point D)) :
    Except ReadError (List (Point D)) :=
  if i < values.length then do
    let x ← valueAt values i
    let y ← valueAt values (i + 1)
    borderLoop values (i + 2) (borders ++ [⟨x, y⟩])
  else return borders
termination_by values.length - i

/-- The `switch` of `getMap`. -/
def GameMap.addLineAt (m : GameMap D) (type : Char) (values : List D) :
    Except ReadError (GameMap D) :=
  if type = 'B' then do
    let borders ← borderLoop values 0 m.borders
    return { m with borders }
  else if type = 'W' then do
    let p0 := Point.mk (← valueAt values 0) (← valueAt values 1)
    let p1 := Point.mk (← valueAt values 2) (← valueAt values 3)
    let p2 := Point.mk (← valueAt values 4) (← valueAt values 5)
    let p3 := Point.mk (← valueAt values 6) (← valueAt values 7)
    return { m with walls := m.walls ++ [⟨p0, p1, p2, p3⟩] }
  else if type = 'O' then do
    let centre := Point.mk (← valueAt values 0) (← valueAt values 1)
    let r ← valueAt values 2
    return { m with obstacles := m.obstacles ++ [⟨centre, r⟩] }
  else return m

/-- The body of the loop over the lines. -/
def GameMap.readLineAt (stod : List Char → Option D) (m : GameMap D) (line : List Char) :
    Except ReadError (GameMap D) :=
  match splitMapLine stod line with
  | none => .error .stod
  | some (type, values) => m.addLineAt type values

/-- The lines of the file that is opened; none if there is no such file. -/
def mapLines (files : String → Option (List Char)) (mapName : String) : List (List Char) :=
  ((files ("../Maps/" ++ mapName) <|> files ("Maps/" ++ mapName)).map
    (Delimited.pieces '\n')).getD []

/-- `getMap`. -/
def getMapAt [LT D] [DecidableLT D] [NumericLimits D] (stod : List Char → Option D)
    (files : String → Option (List Char)) (mapName : String) (m : GameMap D) :
    Except ReadError (GameMap D) :=
  match files ("../Maps/" ++ mapName) <|> files ("Maps/" ++ mapName) with
  | none => .ok m
  | some text =>
    ((Delimited.pieces '\n' text).foldlM (GameMap.readLineAt stod) m).map GameMap.setCorners

/-! ## What it is to read only what is there -/

/-- The line has the values its type asks for. -/
def Complete (type : Char) (count : ℕ) : Prop :=
  (type = 'B' → Even count) ∧ (type = 'W' → 8 ≤ count) ∧ (type = 'O' → 3 ≤ count)

/-- The numbers of the line are complete. -/
def CompleteLine (stod : List Char → Option D) (line : List Char) : Prop :=
  ∀ type values, splitMapLine stod line = some (type, values) → Complete type values.length

/-- What the values of a line amount to, if there are enough. -/
def toMapLine (type : Char) (values : List D) : Option (MapLine D) :=
  if type = 'B' then (borderPoints values).map .border
  else if type = 'W' then
    match values with
    | x0 :: y0 :: x1 :: y1 :: x2 :: y2 :: x3 :: y3 :: _ =>
      some (.wall ⟨⟨x0, y0⟩, ⟨x1, y1⟩, ⟨x2, y2⟩, ⟨x3, y3⟩⟩)
    | _ => none
  else if type = 'O' then
    match values with
    | x :: y :: r :: _ => some (.obstacle ⟨⟨x, y⟩, r⟩)
    | _ => none
  else some .comment

/-- What a line contains; a line without enough values contains nothing. -/
def containedIn (stod : List Char → Option D) (line : List Char) : MapLine D :=
  ((splitMapLine stod line).bind fun (type, values) => toMapLine type values).getD .comment

/-- `getMap` reads no value past the end of its line, and what it adds to the map is what the lines
contain. -/
def ReadsContained [LT D] [DecidableLT D] [NumericLimits D] (stod : List Char → Option D)
    (files : String → Option (List Char)) (mapName : String) (m : GameMap D) : Prop :=
  getMapAt stod files mapName m ≠ .error .pastEnd ∧
    ∀ m', getMapAt stod files mapName m = .ok m' →
      let lines := (mapLines files mapName).map (containedIn stod)
      m'.borders = m.borders ++ lines.flatMap MapLine.borders ∧
        m'.walls = m.walls ++ lines.flatMap MapLine.walls ∧
        m'.obstacles = m.obstacles ++ lines.flatMap MapLine.obstacles

/-! ## One line -/

theorem borderLoop_eq (values : List D) (i : ℕ) (borders : List (Point D)) :
    borderLoop values i borders
      = orPastEnd ((borderPoints (values.drop i)).map (borders ++ ·)) := by
  fun_induction borderLoop values i borders with
  | case1 i borders hlt ih =>
    have hx : valueAt values i = .ok values[i] := by
      unfold valueAt
      rw [List.getElem?_eq_getElem hlt]
      rfl
    rw [hx, List.drop_eq_getElem_cons hlt]
    show (valueAt values (i + 1) >>= fun y =>
      borderLoop values (i + 2) (borders ++ [Point.mk values[i] y])) = _
    by_cases hnext : i + 1 < values.length
    · have hy : valueAt values (i + 1) = .ok values[i + 1] := by
        unfold valueAt
        rw [List.getElem?_eq_getElem hnext]
        rfl
      rw [hy, List.drop_eq_getElem_cons hnext]
      show borderLoop values (i + 2) (borders ++ [Point.mk values[i] values[i + 1]]) = _
      rw [ih, borderPoints, Option.map_map]
      congr 2
      funext points
      exact List.append_cons borders _ points |>.symm
    · have hy : valueAt values (i + 1) = .error .pastEnd := by
        unfold valueAt
        rw [List.getElem?_eq_none (by omega)]
        rfl
      rw [hy, List.drop_eq_nil_of_le (by omega)]
      rfl
  | case2 i borders hle =>
    rw [List.drop_eq_nil_of_le (by omega)]
    simp [borderPoints, orPastEnd, pure, Except.pure]

/-- Reading index by index fails exactly where taking the values off the list does. -/
theorem addLineAt_eq (m : GameMap D) (type : Char) (values : List D) :
    m.addLineAt type values = orPastEnd (m.addLine type values) := by
  unfold GameMap.addLineAt GameMap.addLine
  split_ifs
  · rw [borderLoop_eq, List.drop_zero]
    cases borderPoints values <;> rfl
  · rcases values with _ | ⟨a, _ | ⟨b, _ | ⟨c, _ | ⟨d, _ | ⟨e, _ | ⟨f, _ | ⟨g, _ | ⟨h, values⟩⟩⟩⟩⟩⟩⟩⟩
    all_goals rfl
  · rcases values with _ | ⟨a, _ | ⟨b, _ | ⟨c, values⟩⟩⟩
    all_goals rfl
  · rfl

theorem addLine_eq (m : GameMap D) (type : Char) (values : List D) :
    m.addLine type values = (toMapLine type values).map m.extend := by
  unfold GameMap.addLine toMapLine
  split_ifs
  · rw [Option.map_map]
    congr 1
    funext points
    simp [GameMap.extend, MapLine.borders, MapLine.walls, MapLine.obstacles]
  · split <;> simp [GameMap.extend, MapLine.borders, MapLine.walls, MapLine.obstacles]
  · split <;> simp [GameMap.extend, MapLine.borders, MapLine.walls, MapLine.obstacles]
  · simp [GameMap.extend, MapLine.borders, MapLine.walls, MapLine.obstacles]

theorem borderPoints_isSome (values : List D) :
    (borderPoints values).isSome = true ↔ Even values.length := by
  fun_induction borderPoints values with
  | case1 => simp
  | case2 x => simp
  | case3 x y values ih =>
    rw [Option.isSome_map, ih]
    simp [Nat.even_add_one]

theorem toMapLine_isSome (type : Char) (values : List D) :
    (toMapLine type values).isSome = true ↔ Complete type values.length := by
  unfold toMapLine Complete
  split_ifs with hB hW hO
  · subst hB
    rw [Option.isSome_map, borderPoints_isSome]
    simp
  · subst hW
    rcases values with _ | ⟨a, _ | ⟨b, _ | ⟨c, _ | ⟨d, _ | ⟨e, _ | ⟨f, _ | ⟨g, _ | ⟨h, values⟩⟩⟩⟩⟩⟩⟩⟩
    all_goals simp
  · subst hO
    rcases values with _ | ⟨a, _ | ⟨b, _ | ⟨c, values⟩⟩⟩
    all_goals simp
  · simp [hB, hW, hO]

/-- A line that is read adds what it contains. -/
theorem readLineAt_of_complete {stod : List Char → Option D} {line : List Char}
    (hnumbers : (splitMapLine stod line).isSome) (h : CompleteLine stod line) (m : GameMap D) :
    m.readLineAt stod line = .ok (m.extend (containedIn stod line)) := by
  obtain ⟨⟨type, values⟩, hsplit⟩ := Option.isSome_iff_exists.mp hnumbers
  obtain ⟨mapLine, hline⟩ := Option.isSome_iff_exists.mp
    ((toMapLine_isSome type values).mpr (h type values hsplit))
  unfold GameMap.readLineAt containedIn
  rw [hsplit]
  show m.addLineAt type values = .ok (m.extend ((toMapLine type values).getD .comment))
  rw [addLineAt_eq, addLine_eq, hline]
  rfl

/-- Any other line whose numbers are numbers is read past its end. -/
theorem readLineAt_of_not_complete {stod : List Char → Option D} {line : List Char}
    (h : ¬ CompleteLine stod line) (m : GameMap D) :
    m.readLineAt stod line = .error .pastEnd := by
  simp only [CompleteLine, not_forall] at h
  obtain ⟨type, values, hsplit, hshort⟩ := h
  have hnone : toMapLine type values = none := by
    rw [← Option.not_isSome_iff_eq_none, toMapLine_isSome]
    exact hshort
  unfold GameMap.readLineAt
  rw [hsplit]
  show m.addLineAt type values = .error .pastEnd
  rw [addLineAt_eq, addLine_eq, hnone]
  rfl

/-! ## The loop over the lines -/

/-- The lines up to the first one with a field that is no number. -/
def numericLines (stod : List Char → Option D) (lines : List (List Char)) : List (List Char) :=
  lines.takeWhile fun line => (splitMapLine stod line).isSome

theorem foldlM_readLineAt_of_complete {stod : List Char → Option D} {lines : List (List Char)}
    (h : ∀ line ∈ numericLines stod lines, CompleteLine stod line) (m : GameMap D) :
    lines.foldlM (GameMap.readLineAt stod) m = .error .stod ∨
      lines.foldlM (GameMap.readLineAt stod) m
        = .ok ((lines.map (containedIn stod)).foldl GameMap.extend m) := by
  induction lines generalizing m with
  | nil => exact .inr rfl
  | cons line lines ih =>
    rw [List.foldlM_cons]
    by_cases hnumbers : (splitMapLine stod line).isSome = true
    · have hrest : numericLines stod (line :: lines) = line :: numericLines stod lines :=
        List.takeWhile_cons_of_pos hnumbers
      rw [hrest, List.forall_mem_cons] at h
      rw [readLineAt_of_complete hnumbers h.1]
      exact ih h.2 (m.extend (containedIn stod line))
    · have hthrows : m.readLineAt stod line = .error .stod := by
        unfold GameMap.readLineAt
        rw [Option.not_isSome_iff_eq_none.mp hnumbers]
      rw [hthrows]
      exact .inl rfl

theorem foldlM_readLineAt_of_short {stod : List Char → Option D} {lines : List (List Char)}
    (h : ¬ ∀ line ∈ numericLines stod lines, CompleteLine stod line) (m : GameMap D) :
    lines.foldlM (GameMap.readLineAt stod) m = .error .pastEnd := by
  induction lines generalizing m with
  | nil => exact absurd (fun line hline => by cases hline) h
  | cons line lines ih =>
    have hnumbers : (splitMapLine stod line).isSome = true := by
      by_contra hnone
      refine h fun l hl => ?_
      have hnil : numericLines stod (line :: lines) = [] := List.takeWhile_cons_of_neg hnone
      rw [hnil] at hl
      cases hl
    have hrest : numericLines stod (line :: lines) = line :: numericLines stod lines :=
      List.takeWhile_cons_of_pos hnumbers
    rw [hrest, List.forall_mem_cons] at h
    rw [List.foldlM_cons]
    by_cases hcomplete : CompleteLine stod line
    · rw [readLineAt_of_complete hnumbers hcomplete]
      exact ih (fun hlines => h ⟨hcomplete, hlines⟩) _
    · rw [readLineAt_of_not_complete hcomplete]
      rfl

/-- The two ways to fail put together, it is the loop of `getMap`. -/
theorem toOption_foldlM (stod : List Char → Option D) (lines : List (List Char)) (m : GameMap D) :
    (lines.foldlM (GameMap.readLineAt stod) m).toOption
      = Lts.run (GameMap.readLine stod) lines m := by
  induction lines generalizing m with
  | nil => rfl
  | cons line lines ih =>
    have hline : (m.readLineAt stod line).toOption = m.readLine stod line := by
      unfold GameMap.readLineAt GameMap.readLine
      cases splitMapLine stod line with
      | none => rfl
      | some r =>
        show (m.addLineAt r.1 r.2).toOption = m.addLine r.1 r.2
        rw [addLineAt_eq]
        cases m.addLine r.1 r.2 <;> rfl
    rw [List.foldlM_cons, Lts.run_cons, ← hline]
    cases m.readLineAt stod line with
    | error e => rfl
    | ok m' => exact ih m'

/-! ## The file -/

variable [LT D] [DecidableLT D] [NumericLimits D]

/-- The loop over the lines of the file, and the corners, which are left alone without a file. -/
theorem getMapAt_eq (stod : List Char → Option D) (files : String → Option (List Char))
    (mapName : String) (m : GameMap D) : ∃ finish : GameMap D → GameMap D,
      getMapAt stod files mapName m
        = ((mapLines files mapName).foldlM (GameMap.readLineAt stod) m).map finish ∧
      ∀ m, (finish m).borders = m.borders ∧ (finish m).walls = m.walls ∧
        (finish m).obstacles = m.obstacles := by
  unfold getMapAt mapLines
  cases files ("../Maps/" ++ mapName) <|> files ("Maps/" ++ mapName) with
  | none => exact ⟨id, rfl, fun _ => ⟨rfl, rfl, rfl⟩⟩
  | some text => exact ⟨GameMap.setCorners, rfl, fun _ => ⟨rfl, rfl, rfl⟩⟩

theorem toOption_getMapAt (stod : List Char → Option D) (files : String → Option (List Char))
    (mapName : String) (m : GameMap D) :
    (getMapAt stod files mapName m).toOption = getMap stod files mapName m := by
  unfold getMapAt getMap
  cases files ("../Maps/" ++ mapName) <|> files ("Maps/" ++ mapName) with
  | none => rfl
  | some text =>
    show (Except.map _ _).toOption = Option.map _ _
    rw [← toOption_foldlM]
    cases List.foldlM (GameMap.readLineAt stod) m (Delimited.pieces '\n' text) <;> rfl

/-- **Values that are there.** `getMap` reads the values its lines contain and no others if and only
if each line up to the first one that `std::stod` throws at has an even count of values, at least
eight, or at least three, as its type asks for. -/
theorem readsContained_iff (stod : List Char → Option D) (files : String → Option (List Char))
    (mapName : String) (m : GameMap D) :
    ReadsContained stod files mapName m ↔
      ∀ line ∈ numericLines stod (mapLines files mapName), CompleteLine stod line := by
  obtain ⟨finish, hmap, hfinish⟩ := getMapAt_eq stod files mapName m
  unfold ReadsContained
  rw [hmap]
  constructor
  · rintro ⟨hends, -⟩
    by_contra hshort
    rw [foldlM_readLineAt_of_short hshort] at hends
    exact hends rfl
  · intro hcomplete
    rcases foldlM_readLineAt_of_complete hcomplete m with hloop | hloop <;> rw [hloop]
    · refine ⟨?_, ?_⟩
      · intro h
        cases h
      · intro m' h
        cases h
    · refine ⟨?_, ?_⟩
      · intro h
        cases h
      intro m' h
      obtain rfl := Except.ok.inj h
      obtain ⟨hborders, hwalls, hobstacles⟩ :=
        hfinish (((mapLines files mapName).map (containedIn stod)).foldl GameMap.extend m)
      obtain ⟨hw, ho, hb⟩ := foldl_extend ((mapLines files mapName).map (containedIn stod)) m
      exact ⟨hborders.trans hb, hwalls.trans hw, hobstacles.trans ho⟩

end Reads

/-- A map with one border line, of which the last coordinate is missing. -/
theorem oddBorder_reads_past_end :
    ¬ ReadsContained stodDigits (fun _ => some "B,1,2,3".toList) "map1" GameMap.empty := by
  have hsplit : splitMapLine stodDigits "B,1,2,3".toList
      = some ('B', [((1 : ℕ) : ℝ), ((2 : ℕ) : ℝ), ((3 : ℕ) : ℝ)]) := by
    refine splitMapLine_of_numbers (by decide)
      ⟨[], ["1".toList, "2".toList, "3".toList], Delimited.pieces_eq_iff.mp rfl, rfl⟩
  rintro ⟨hends, -⟩
  refine hends ?_
  have hshort : ¬ CompleteLine stodDigits "B,1,2,3".toList := fun h =>
    absurd ((h _ _ hsplit).1 rfl) (by decide)
  have hline := readLineAt_of_not_complete hshort GameMap.empty
  show Except.map _ (List.foldlM _ _ ["B,1,2,3".toList]) = _
  rw [List.foldlM_cons, hline]
  rfl

end PRShooter
