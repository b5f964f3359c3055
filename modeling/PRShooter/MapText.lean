import PRShooter.ExactReal
import PRShooter.GameStateCodec
import PRShooter.Delimited

/-!
# From the map file to the client

`splitMapLine` and `getMap` of `Host/game.cpp`, and the way of a map from the text of its file over
`serializeMap` to `get_map_from_bytes`: three layouts written by hand, which agree
(`map_roundTrip`).

`std::stod` is a parameter: a number is a text it accepts. The result `none` stands for an exception
it throws, and for a read past the end of the numbers of a line.
-/

namespace PRShooter

open LittleEndian (bytes Reads)

/-- `std::numeric_limits<double>`; `min` is the smallest positive normal number. -/
class NumericLimits (D : Type) where
  max : D
  min : D

/-! ## Reading the file -/

section File

variable {D : Type}

/-- `type[0]`: the null character behind an empty string. -/
def typeChar (type : List Char) : Char := type.headD (Char.ofNat 0)

/-- `splitMapLine`. -/
def splitMapLine (stod : List Char → Option D) (line : List Char) : Option (Char × List D) :=
  let type := (Delimited.pieces ',' line).headD []
  let fields := (Delimited.pieces ',' line).tail
  if typeChar type = '#' then some (typeChar type, [])
  else (fields.mapM stod).map fun values => (typeChar type, values)

/-- The loop `i += 2` over the values of a border line. -/
def borderPoints : List D → Option (List (Point D))
  | [] => some []
  | [_] => none
  | x :: y :: values => (borderPoints values).map (⟨x, y⟩ :: ·)

/-- The `switch` of `getMap`. Of a line of another type only a notice is printed. -/
def GameMap.addLine (m : GameMap D) (type : Char) (values : List D) : Option (GameMap D) :=
  if type = 'B' then
    (borderPoints values).map fun points => { m with borders := m.borders ++ points }
  else if type = 'W' then
    match values with
    | x0 :: y0 :: x1 :: y1 :: x2 :: y2 :: x3 :: y3 :: _ =>
      some { m with walls := m.walls ++ [⟨⟨x0, y0⟩, ⟨x1, y1⟩, ⟨x2, y2⟩, ⟨x3, y3⟩⟩] }
    | _ => none
  else if type = 'O' then
    match values with
    | x :: y :: r :: _ => some { m with obstacles := m.obstacles ++ [⟨⟨x, y⟩, r⟩] }
    | _ => none
  else some m

/-- The body of the loop over the lines. -/
def GameMap.readLine (stod : List Char → Option D) (m : GameMap D) (line : List Char) :
    Option (GameMap D) :=
  (splitMapLine stod line).bind fun (type, values) => m.addLine type values

variable [LT D] [DecidableLT D] [NumericLimits D]

/-- `std::min`. -/
def stdMin (a b : D) : D := if b < a then b else a

/-- `std::max`. -/
def stdMax (a b : D) : D := if a < b then b else a

/-- The rectangle around the border. The search for the largest coordinates starts at the smallest
positive number. -/
def GameMap.setCorners (m : GameMap D) : GameMap D :=
  { m with
    topLeft :=
      m.borders.foldl (fun corner point => ⟨stdMin corner.x point.x, stdMin corner.y point.y⟩)
        ⟨NumericLimits.max, NumericLimits.max⟩
    bottomRight :=
      m.borders.foldl (fun corner point => ⟨stdMax corner.x point.x, stdMax corner.y point.y⟩)
        ⟨NumericLimits.min, NumericLimits.min⟩ }

/-- `getMap`, where `files` are the files that can be opened. -/
def getMap (stod : List Char → Option D) (files : String → Option (List Char)) (mapName : String)
    (m : GameMap D) : Option (GameMap D) :=
  match files ("../Maps/" ++ mapName) <|> files ("Maps/" ++ mapName) with
  | none => some m
  | some text =>
    (Lts.run (GameMap.readLine stod) (Delimited.pieces '\n' text) m).map GameMap.setCorners

/-- The map of a new `Game`. -/
def GameMap.empty [Zero D] : GameMap D := ⟨[], 0, 0, [], []⟩

end File

/-! ## Map texts -/

/-- A line of a map file. -/
inductive MapLine (D : Type) where
  | comment
  | border (points : List (Point D))
  | wall (wall : Rectangle D)
  | obstacle (obstacle : Circle D)

namespace MapLine

variable {D : Type}

/-- The border points of a line. -/
def borders : MapLine D → List (Point D)
  | border points => points
  | _ => []

/-- The walls of a line. -/
def walls : MapLine D → List (Rectangle D)
  | wall w => [w]
  | _ => []

/-- The obstacles of a line. -/
def obstacles : MapLine D → List (Circle D)
  | obstacle c => [c]
  | _ => []

/-- The text is a field that begins with the type, and then the given numbers. -/
def Numbers (stod : List Char → Option D) (type : Char) (values : List D) (text : List Char) :
    Prop :=
  ∃ rest fields, Delimited.Spells ',' text ((type :: rest) :: fields) ∧
    fields.mapM stod = some values

/-- The text spells the line: a comment is anything behind `#`, a border has an even count of numbers,
a wall eight and an obstacle three. -/
def Spells (stod : List Char → Option D) : MapLine D → List Char → Prop
  | comment, text => ∃ rest, text = '#' :: rest
  | border points, text => Numbers stod 'B' (points.flatMap fun p => [p.x, p.y]) text
  | wall w, text =>
    Numbers stod 'W' [w.p0.x, w.p0.y, w.p1.x, w.p1.y, w.p2.x, w.p2.y, w.p3.x, w.p3.y] text
  | obstacle c, text => Numbers stod 'O' [c.centre.x, c.centre.y, c.r] text

end MapLine

/-- The text of a file that consists of the given lines. -/
def SpellsMap {D : Type} (stod : List Char → Option D) (lines : List (MapLine D))
    (text : List Char) : Prop :=
  ∃ texts, Delimited.Spells '\n' text texts ∧ List.Forall₂ (MapLine.Spells stod) lines texts

/-! ## Loading -/

section Loading

variable {D : Type} {stod : List Char → Option D}

theorem splitMapLine_of_numbers {type : Char} {values : List D} {text : List Char}
    (hne : type ≠ '#') (h : MapLine.Numbers stod type values text) :
    splitMapLine stod text = some (type, values) := by
  obtain ⟨rest, fields, hspells, hvalues⟩ := h
  unfold splitMapLine
  rw [Delimited.pieces_eq_iff.mpr hspells]
  show (if type = '#' then _ else (fields.mapM stod).map fun values => (type, values)) = _
  rw [if_neg hne, hvalues]
  rfl

theorem splitMapLine_comment (rest : List Char) :
    splitMapLine stod ('#' :: rest) = some ('#', []) := by
  obtain ⟨p, ps, hp⟩ := Delimited.pieces_cons (d := ',') (c := '#') (by decide) rest
  unfold splitMapLine
  rw [hp]
  rfl

theorem borderPoints_flatMap (points : List (Point D)) :
    borderPoints (points.flatMap fun p => [p.x, p.y]) = some points := by
  induction points with
  | nil => rfl
  | cons p points ih =>
    show (borderPoints (points.flatMap fun p => [p.x, p.y])).map _ = _
    rw [ih]
    rfl

/-- What a line adds to the map. -/
def GameMap.extend (m : GameMap D) (line : MapLine D) : GameMap D :=
  { m with
    borders := m.borders ++ line.borders
    walls := m.walls ++ line.walls
    obstacles := m.obstacles ++ line.obstacles }

theorem readLine_of_spells (m : GameMap D) {line : MapLine D} {text : List Char}
    (h : line.Spells stod text) : m.readLine stod text = some (m.extend line) := by
  unfold GameMap.readLine
  cases line with
  | comment =>
    obtain ⟨rest, rfl⟩ := h
    rw [splitMapLine_comment]
    simp [GameMap.addLine, GameMap.extend, MapLine.borders, MapLine.walls, MapLine.obstacles]
  | border points =>
    rw [splitMapLine_of_numbers (by decide) h]
    simp [GameMap.addLine, borderPoints_flatMap, GameMap.extend, MapLine.borders, MapLine.walls,
      MapLine.obstacles]
  | wall w =>
    rw [splitMapLine_of_numbers (by decide) h]
    simp [GameMap.addLine, GameMap.extend, MapLine.borders, MapLine.walls, MapLine.obstacles]
  | obstacle c =>
    rw [splitMapLine_of_numbers (by decide) h]
    simp [GameMap.addLine, GameMap.extend, MapLine.borders, MapLine.walls, MapLine.obstacles]

/-- The loop over the lines. -/
theorem run_readLine {lines : List (MapLine D)} {texts : List (List Char)}
    (h : List.Forall₂ (MapLine.Spells stod) lines texts) (m : GameMap D) :
    Lts.run (GameMap.readLine stod) texts m = some (lines.foldl GameMap.extend m) := by
  induction h generalizing m with
  | nil => rfl
  | cons hline _ ih =>
    rw [Lts.run_cons, readLine_of_spells m hline, Option.bind_some, ih]
    rfl

/-- All lines together: their parts in file order. -/
theorem foldl_extend (lines : List (MapLine D)) (m : GameMap D) :
    (lines.foldl GameMap.extend m).walls = m.walls ++ lines.flatMap MapLine.walls ∧
      (lines.foldl GameMap.extend m).obstacles = m.obstacles ++ lines.flatMap MapLine.obstacles ∧
      (lines.foldl GameMap.extend m).borders = m.borders ++ lines.flatMap MapLine.borders := by
  induction lines generalizing m with
  | nil => simp
  | cons line lines ih =>
    rw [List.foldl_cons]
    obtain ⟨hwalls, hobstacles, hborders⟩ := ih (m.extend line)
    refine ⟨?_, ?_, ?_⟩
    · rw [hwalls, List.flatMap_cons, ← List.append_assoc]
      rfl
    · rw [hobstacles, List.flatMap_cons, ← List.append_assoc]
      rfl
    · rw [hborders, List.flatMap_cons, ← List.append_assoc]
      rfl

/-- **Loading.** A file that can be opened is read line by line. -/
theorem getMap_of_spells [LT D] [DecidableLT D] [NumericLimits D] [Zero D]
    {lines : List (MapLine D)} {text : List Char} (h : SpellsMap stod lines text)
    {files : String → Option (List Char)} {mapName : String}
    (hfile : (files ("../Maps/" ++ mapName) <|> files ("Maps/" ++ mapName)) = some text) :
    ∃ m, getMap stod files mapName GameMap.empty = some m ∧
      m.walls = lines.flatMap MapLine.walls ∧ m.obstacles = lines.flatMap MapLine.obstacles ∧
        m.borders = lines.flatMap MapLine.borders := by
  obtain ⟨texts, htext, hlines⟩ := h
  refine ⟨(lines.foldl GameMap.extend GameMap.empty).setCorners, ?_,
    foldl_extend lines GameMap.empty⟩
  unfold getMap
  rw [hfile]
  show (Lts.run _ (Delimited.pieces '\n' text) _).map _ = _
  rw [Delimited.pieces_eq_iff.mpr htext, run_readLine hlines]
  rfl

end Loading

/-! ## The GAME_MAP message -/

section Message

variable {D : Type} [ToWord 64 D]

/-- The 64 bytes of a wall. -/
def encodeRectangle (w : Rectangle D) : List UInt8 :=
  encodePoint w.p0 ++ (encodePoint w.p1 ++ (encodePoint w.p2 ++ encodePoint w.p3))

/-- The 24 bytes of an obstacle. -/
def encodeCircle (c : Circle D) : List UInt8 :=
  encodePoint c.centre ++ bytes 8 (toWord c.r : BitVec 64).toNat

theorem length_encodeRectangle (w : Rectangle D) : (encodeRectangle w).length = 64 := by
  simp [encodeRectangle, length_encodePoint]

theorem length_encodeCircle (c : Circle D) : (encodeCircle c).length = 24 := by
  simp [encodeCircle, length_encodePoint]

theorem copyRectangle_eq (buf : Buffer) (w : Rectangle D) :
    buf.copyRectangle w = buf.append (encodeRectangle w) := by
  simp [Buffer.copyRectangle, copyPoint_eq, Buffer.append_append, encodeRectangle]

theorem copyCircle_eq (buf : Buffer) (c : Circle D) :
    buf.copyCircle c = buf.append (encodeCircle c) := by
  simp [Buffer.copyCircle, copyPoint_eq, Buffer.copyDouble, Buffer.copyToBuf_eq,
    Buffer.append_append, encodeCircle]

/-- The counts of a map fit into 16 bits. -/
structure GameMap.Fits (m : GameMap D) : Prop where
  walls : m.walls.length < 65536
  obstacles : m.obstacles.length < 65536
  borders : m.borders.length < 65536

/-- The body of a GAME_MAP: the counts, the walls, the obstacles and the border points. -/
def encodeMapBody (m : GameMap D) : List UInt8 :=
  bytes 2 m.walls.length ++ (bytes 2 m.obstacles.length ++ (bytes 2 m.borders.length ++
    (m.walls.flatMap encodeRectangle ++ (m.obstacles.flatMap encodeCircle ++
      m.borders.flatMap encodePoint))))

theorem serializeMap_eq {m : GameMap D} (h : m.Fits) :
    serializeMap m =
      (Buffer.new (7 + m.walls.length * sizeofRectangle + m.obstacles.length * sizeofCircle
        + m.borders.length * sizeofPoint)).append
          (bytes 1 DataType.gameMap.toNat ++ encodeMapBody m) := by
  unfold serializeMap encodeMapBody
  simp only [toNat_ofNat_uint16 h.walls, toNat_ofNat_uint16 h.obstacles,
    toNat_ofNat_uint16 h.borders, Buffer.foldl_append copyRectangle_eq,
    Buffer.foldl_append copyCircle_eq, Buffer.foldl_append copyPoint_eq, Buffer.copyToBuf_eq,
    Buffer.append_append, List.append_assoc]

theorem length_encodeMapBody (m : GameMap D) :
    (encodeMapBody m).length =
      6 + 64 * m.walls.length + 24 * m.obstacles.length + 16 * m.borders.length := by
  simp only [encodeMapBody, List.length_append, LittleEndian.length_bytes,
    length_flatMap_const length_encodeRectangle, length_flatMap_const length_encodeCircle,
    length_flatMap_const length_encodePoint]
  omega

/-- The words of a wall. -/
def Rectangle.words (w : Rectangle D) : Client.Rectangle :=
  { p0 := w.p0.words, p1 := w.p1.words, p2 := w.p2.words, p3 := w.p3.words }

/-- The words of an obstacle. -/
def Circle.words (c : Circle D) : Client.Circle :=
  { position := c.centre.words, radius := toWord c.r }

theorem reads_readRectangle (w : Rectangle D) :
    Reads Client.readRectangle (encodeRectangle w) w.words :=
  (reads_readPoint _).bind <| (reads_readPoint _).bind <| (reads_readPoint _).bind
    (reads_readPoint _).map

theorem reads_readCircle (c : Circle D) : Reads Client.readCircle (encodeCircle c) c.words :=
  (reads_readPoint _).bind (reads_readDouble _).map

/-- What the client is to know of the map. -/
def GameMap.clientView (m : GameMap D) : Client.Map :=
  { walls := m.walls.map Rectangle.words
    obstacles := m.obstacles.map Circle.words
    border := m.borders.map Point.words }

/-- The client reads back the body of a GAME_MAP whatever follows it. -/
theorem reads_getMapFromBytes {m : GameMap D} (h : m.Fits) :
    Reads Client.getMapFromBytes (encodeMapBody m) m.clientView :=
  (reads_readInt h.walls).bind <| (reads_readInt h.obstacles).bind <|
    (reads_readInt h.borders).bind <|
    (Reads.replicate _ _ _ fun w _ => reads_readRectangle w).bind <|
    (Reads.replicate _ _ _ fun c _ => reads_readCircle c).bind
      (Reads.replicate _ _ _ fun p _ => reads_readPoint p).map

/-- A GAME_MAP is read back, and fills its buffer. -/
theorem serializeMap_roundTrip {m : GameMap D} (h : m.Fits) :
    (∃ body, (serializeMap m).written = UInt8.ofNat DataType.gameMap.toNat :: body ∧
        Client.getMapFromBytes.run body = some (m.clientView, [])) ∧
      (serializeMap m).size.toNat =
        7 + 64 * m.walls.length + 24 * m.obstacles.length + 16 * m.borders.length ∧
      (serializeMap m).written.length = (serializeMap m).size.toNat ∧
      (serializeMap m).allocated = (serializeMap m).size.toNat := by
  have hsize : (bytes 1 DataType.gameMap.toNat ++ encodeMapBody m).length
      = 7 + 64 * m.walls.length + 24 * m.obstacles.length + 16 * m.borders.length := by
    rw [List.length_append, LittleEndian.length_bytes, length_encodeMapBody]
    omega
  have hcount : ((0 : UInt32) + UInt32.ofNat
      (7 + 64 * m.walls.length + 24 * m.obstacles.length + 16 * m.borders.length)).toNat
        = 7 + 64 * m.walls.length + 24 * m.obstacles.length + 16 * m.borders.length := by
    have hwalls := h.walls
    have hobstacles := h.obstacles
    have hborders := h.borders
    rw [UInt32.zero_add, UInt32.toNat_ofNat']
    exact Nat.mod_eq_of_lt (by omega)
  simp only [serializeMap_eq h, Buffer.append, Buffer.new, sizeofRectangle, sizeofCircle,
    sizeofPoint, List.nil_append, hsize]
  refine ⟨⟨encodeMapBody m, rfl, ?_⟩, hcount, hcount.symm, ?_⟩
  · have hread := reads_getMapFromBytes h []
    rwa [List.append_nil] at hread
  · rw [hcount]
    omega

end Message

/-! ## The whole way -/

/-- **From the file to the client.** A file of comments, borders, walls and obstacles in any order is
loaded, and what the host serializes of it is the type byte and a body from which the client decodes
exactly the words of the file's walls, obstacles and border points, in file order and with nothing
left over. The message fills the buffer allocated for it. -/
theorem map_roundTrip {D : Type} [LT D] [DecidableLT D] [NumericLimits D] [Zero D] [ToWord 64 D]
    {stod : List Char → Option D} {lines : List (MapLine D)} {text : List Char}
    (hspells : SpellsMap stod lines text)
    (hwalls : (lines.flatMap MapLine.walls).length < 65536)
    (hobstacles : (lines.flatMap MapLine.obstacles).length < 65536)
    (hborders : (lines.flatMap MapLine.borders).length < 65536)
    {files : String → Option (List Char)} {mapName : String}
    (hfile : (files ("../Maps/" ++ mapName) <|> files ("Maps/" ++ mapName)) = some text) :
    ∃ m, getMap stod files mapName GameMap.empty = some m ∧
      let message := serializeMap m
      let size := 7 + 64 * (lines.flatMap MapLine.walls).length
        + 24 * (lines.flatMap MapLine.obstacles).length
        + 16 * (lines.flatMap MapLine.borders).length
      (∃ body, message.written = UInt8.ofNat DataType.gameMap.toNat :: body ∧
        Client.getMapFromBytes.run body =
          some ({ walls := (lines.flatMap MapLine.walls).map Rectangle.words
                  obstacles := (lines.flatMap MapLine.obstacles).map Circle.words
                  border := (lines.flatMap MapLine.borders).map Point.words }, [])) ∧
      message.written.length = size ∧ message.size.toNat = size ∧ message.allocated = size := by
  obtain ⟨m, hload, hw, ho, hb⟩ := getMap_of_spells hspells hfile
  rw [← hw] at hwalls
  rw [← ho] at hobstacles
  rw [← hb] at hborders
  rw [← hw, ← ho, ← hb]
  have hfits : m.Fits := ⟨hwalls, hobstacles, hborders⟩
  obtain ⟨hbody, hsize, hlength, hallocated⟩ := serializeMap_roundTrip hfits
  exact ⟨m, hload, hbody, hlength.trans hsize, hsize, hallocated.trans hsize⟩

noncomputable instance : NumericLimits ℝ :=
  ⟨((2 : ℕ) - (2 : ℕ) ^ (-52 : ℤ)) * (2 : ℕ) ^ 1023, (2 : ℕ) ^ (-1022 : ℤ)⟩

/-- `std::stod` on the numbers written with decimal digits alone. -/
noncomputable def stodDigits (text : List Char) : Option ℝ :=
  if text ≠ [] ∧ text.all Char.isDigit then
    some (text.foldl (fun n c => 10 * n + (c.toNat - 48)) 0 : ℕ)
  else none

/-- A comment, a wall, two border lines around an obstacle. -/
def sampleMapText : List Char := "#map\nW,1,2,3,4,5,6,7,8\nB,0,0,100,0\nO,5,6,7\nB,50,50".toList

/-- The host is started beside `Maps`. -/
def sampleFiles (path : String) : Option (List Char) :=
  if path = "Maps/map1" then some sampleMapText else none

noncomputable def sampleMapLines : List (MapLine ℝ) :=
  [.comment,
    .wall ⟨⟨(1 : ℕ), (2 : ℕ)⟩, ⟨(3 : ℕ), (4 : ℕ)⟩, ⟨(5 : ℕ), (6 : ℕ)⟩, ⟨(7 : ℕ), (8 : ℕ)⟩⟩,
    .border [⟨(0 : ℕ), (0 : ℕ)⟩, ⟨(100 : ℕ), (0 : ℕ)⟩], .obstacle ⟨⟨(5 : ℕ), (6 : ℕ)⟩, (7 : ℕ)⟩,
    .border [⟨(50 : ℕ), (50 : ℕ)⟩]]

theorem spellsMap_sample : SpellsMap stodDigits sampleMapLines sampleMapText := by
  have hnumbers : ∀ (type : Char) (values : List ℝ) (text : List Char) (fields : List (List Char)),
      Delimited.pieces ',' text = [type] :: fields → fields.mapM stodDigits = some values →
        MapLine.Numbers stodDigits type values text :=
    fun _ _ _ fields hpieces hvalues => ⟨[], fields, Delimited.pieces_eq_iff.mp hpieces, hvalues⟩
  refine ⟨_, Delimited.spells_pieces _, ?_⟩
  refine .cons ⟨"map".toList, rfl⟩ (.cons ?_ (.cons ?_ (.cons ?_ (.cons ?_ .nil))))
  · exact hnumbers _ _ _ (["1", "2", "3", "4", "5", "6", "7", "8"].map String.toList) rfl rfl
  · exact hnumbers _ _ _ (["0", "0", "100", "0"].map String.toList) rfl rfl
  · exact hnumbers _ _ _ (["5", "6", "7"].map String.toList) rfl rfl
  · exact hnumbers _ _ _ (["50", "50"].map String.toList) rfl rfl

theorem map_roundTrip_sample :
    ∃ m, getMap stodDigits sampleFiles "map1" GameMap.empty = some m ∧
      (serializeMap m).allocated = 143 ∧
      ∃ body, (serializeMap m).written = 1 :: body ∧ ∃ map, Client.getMapFromBytes.run body =
        some (map, []) ∧ map.border.length = 3 := by
  have hfile : (sampleFiles ("../Maps/" ++ "map1") <|> sampleFiles ("Maps/" ++ "map1"))
      = some sampleMapText := by decide
  obtain ⟨m, hload, ⟨body, hwritten, hread⟩, -, -, hallocated⟩ :=
    map_roundTrip spellsMap_sample (by decide) (by decide) (by decide) hfile
  exact ⟨m, hload, hallocated, body, hwritten, _, hread, rfl⟩

end PRShooter
