import Kido.Layout.Protocol
import Kido.Layout.Resize
import Mathlib.Data.List.Sort

set_option autoImplicit false

namespace Kido.Tiling

structure FloatIn where
  pane : PaneId
  x : Option Nat
  y : Option Nat
  cols : Option Nat
  rows : Option Nat
  z : Option Nat
  border : Bool
  title : String

def u32Max : Nat := 2 ^ 32 - 1

def FloatIn.pad (float : FloatIn) : Nat := if float.border then 1 else 0

def FloatIn.key (float : FloatIn) : Nat := float.z.getD u32Max

def placedSize (pad : Nat) (wanted : Option Nat) (window : Nat) : Nat :=
  let room := max (window - 2 * pad) 1
  min (max (wanted.getD ((window + 1) / 2)) 1) room

def placedOffset (pad : Nat) (wanted : Option Nat) (window extent : Nat) : Nat :=
  let offset := max (wanted.getD ((window - extent) / 2)) pad
  if offset + extent + pad ≤ window then offset
  else if window ≤ extent + 2 * pad then pad
  else window - extent - pad

def placeOne (cols rows : Nat) (float : FloatIn) (z : Nat) : Float :=
  let width := placedSize float.pad float.cols cols
  let height := placedSize float.pad float.rows rows
  { pane := float.pane
    x := min (placedOffset float.pad float.x cols width) u16Max
    y := min (placedOffset float.pad float.y rows height) u16Max
    cols := Cells.clamped width
    rows := Cells.clamped height
    z := z
    border := float.border
    title := float.title }

def sortedFloats (floats : List FloatIn) : List FloatIn :=
  floats.insertionSort fun first second => first.key ≤ second.key

def place (floats : List FloatIn) (cols rows : Nat) : List Float :=
  (sortedFloats floats).zipIdx.map fun (float, z) => placeOne cols rows float z

def extent {L : Type} (tree : Node L) (bordered : Bool) (wanted : Nat × Nat) : Nat × Nat :=
  let outer := if bordered then 3 else 1
  (max (max wanted.1 (tree.minimum .horizontal)) outer, max (max wanted.2 (tree.minimum .vertical)) outer)

def Float.pad (float : Float) : Nat := if float.border then 1 else 0

-- The float and its border lie inside a window of that size.
structure Float.Inside (float : Float) (cols rows : Nat) : Prop where
  left : float.pad ≤ float.x
  right : float.x + float.cols.get + float.pad ≤ cols
  top : float.pad ≤ float.y
  bottom : float.y + float.rows.get + float.pad ≤ rows

theorem placedSize_bound (pad : Nat) (wanted : Option Nat) (window : Nat) (room : 1 + 2 * pad ≤ window) :
    1 ≤ placedSize pad wanted window ∧ placedSize pad wanted window + 2 * pad ≤ window := by
  simp only [placedSize]
  omega

theorem placedOffset_bound (pad : Nat) (wanted : Option Nat) (window extent : Nat)
    (room : extent + 2 * pad ≤ window) :
    pad ≤ placedOffset pad wanted window extent ∧ placedOffset pad wanted window extent + extent + pad ≤ window := by
  simp only [placedOffset]
  split_ifs <;> omega

theorem placeOne_inside (cols rows : Nat) (float : FloatIn) (z : Nat)
    (wide : 1 + 2 * float.pad ≤ cols) (tall : 1 + 2 * float.pad ≤ rows)
    (narrow : cols ≤ maxDimension) (short : rows ≤ maxDimension) :
    (placeOne cols rows float z).Inside cols rows := by
  have width := placedSize_bound float.pad float.cols cols wide
  have height := placedSize_bound float.pad float.rows rows tall
  have across := placedOffset_bound float.pad float.x cols _ width.2
  have down := placedOffset_bound float.pad float.y rows _ height.2
  have pad : (placeOne cols rows float z).pad = float.pad := rfl
  have colsGet : (placeOne cols rows float z).cols.get = placedSize float.pad float.cols cols :=
    Cells.clamped_get _ width.1 (by omega)
  have rowsGet : (placeOne cols rows float z).rows.get = placedSize float.pad float.rows rows :=
    Cells.clamped_get _ height.1 (by omega)
  have limits : maxDimension ≤ u16Max := by decide
  constructor
  · simp only [placeOne, pad] at pad ⊢
    omega
  · rw [pad, colsGet]
    simp only [placeOne]
    omega
  · simp only [placeOne, pad] at pad ⊢
    omega
  · rw [pad, rowsGet]
    simp only [placeOne]
    omega

theorem sortedFloats_perm (floats : List FloatIn) : (sortedFloats floats).Perm floats :=
  List.perm_insertionSort _ floats

theorem place_z (floats : List FloatIn) (cols rows : Nat) :
    (place floats cols rows).map Float.z = List.range (place floats cols rows).length := by
  simp [place, placeOne, Function.comp_def, List.range_eq_range', List.zipIdx_map_snd]

theorem place_panes (floats : List FloatIn) (cols rows : Nat) :
    ((place floats cols rows).map Float.pane).Perm (floats.map FloatIn.pane) := by
  have same : (place floats cols rows).map Float.pane = (sortedFloats floats).map FloatIn.pane := by
    conv_rhs => rw [← List.zipIdx_map_fst 0 (sortedFloats floats)]
    simp only [place, List.map_map]
    rfl
  rw [same]
  exact (sortedFloats_perm floats).map _

theorem place_inside (floats : List FloatIn) (cols rows : Nat)
    (wide : ∀ float ∈ floats, 1 + 2 * float.pad ≤ cols) (tall : ∀ float ∈ floats, 1 + 2 * float.pad ≤ rows)
    (narrow : cols ≤ maxDimension) (short : rows ≤ maxDimension) :
    ∀ float ∈ place floats cols rows, float.Inside cols rows := by
  intro float member
  obtain ⟨pair, inside, rfl⟩ := List.mem_map.mp member
  have given : pair.1 ∈ floats :=
    (sortedFloats_perm floats).mem_iff.mp (List.fst_mem_of_mem_zipIdx inside)
  exact placeOne_inside cols rows pair.1 pair.2 (wide _ given) (tall _ given) narrow short

def Float.input (float : Float) : FloatIn where
  pane := float.pane
  x := some float.x
  y := some float.y
  cols := some float.cols.get
  rows := some float.rows.get
  z := some float.z
  border := float.border
  title := float.title

theorem placeOne_same (cols rows : Nat) (float : Float) (inside : float.Inside cols rows)
    (narrow : cols ≤ maxDimension) (short : rows ≤ maxDimension) :
    placeOne cols rows float.input float.z = float := by
  obtain ⟨left, right, top, bottom⟩ := inside
  have positive := float.cols.positive
  have positive' := float.rows.positive
  have limits : maxDimension ≤ u16Max := by decide
  have width : placedSize float.pad (some float.cols.get) cols = float.cols.get := by
    simp only [placedSize, Option.getD_some]
    omega
  have height : placedSize float.pad (some float.rows.get) rows = float.rows.get := by
    simp only [placedSize, Option.getD_some]
    omega
  have across : placedOffset float.pad (some float.x) cols float.cols.get = float.x := by
    simp only [placedOffset, Option.getD_some]
    split_ifs <;> omega
  have down : placedOffset float.pad (some float.y) rows float.rows.get = float.y := by
    simp only [placedOffset, Option.getD_some]
    split_ifs <;> omega
  have x : min float.x u16Max = float.x := by omega
  have y : min float.y u16Max = float.y := by omega
  have fields : placeOne cols rows float.input float.z =
      { float with
        x := min (placedOffset float.pad (some float.x) cols (placedSize float.pad (some float.cols.get) cols)) u16Max
        y := min (placedOffset float.pad (some float.y) rows (placedSize float.pad (some float.rows.get) rows)) u16Max
        cols := Cells.clamped (placedSize float.pad (some float.cols.get) cols)
        rows := Cells.clamped (placedSize float.pad (some float.rows.get) rows) } := rfl
  rw [fields, width, height, across, down, x, y, Cells.clamped_self, Cells.clamped_self]

theorem place_ordered {α : Type} (floats : List α) (input : α → FloatIn) (z : α → Nat) (own : ∀ float, (input float).z = some (z float))
    (cols rows : Nat) (order : floats.map z = List.range floats.length) :
    place (floats.map input) cols rows = floats.map fun float => placeOne cols rows (input float) (z float) := by
  have keys : (floats.map input).map FloatIn.key = List.range floats.length := by
    rw [← order, List.map_map]
    exact List.map_congr_left fun float _ => by rw [Function.comp_apply, FloatIn.key, own, Option.getD_some]
  have ordered : (floats.map input).Pairwise fun first second => first.key ≤ second.key := by
    have ascending : ((floats.map input).map FloatIn.key).Pairwise (· ≤ ·) := by
      rw [keys]
      exact List.pairwise_le_range
    rwa [List.pairwise_map] at ascending
  have sorted : sortedFloats (floats.map input) = floats.map input :=
    List.Pairwise.insertionSort_eq ordered
  rw [place, sorted]
  refine List.ext_getElem (by simp) fun index before after => ?_
  have inside : index < floats.length := by simpa using after
  have own : z floats[index] = index := by
    have here := congrArg (fun list => list[index]?) order
    simpa [inside] using here
  simp [own]

theorem place_input (floats : List Float) (cols rows : Nat) (z : floats.map Float.z = List.range floats.length) :
    place (floats.map Float.input) cols rows = floats.map fun float => placeOne cols rows float.input float.z :=
  place_ordered floats Float.input Float.z (fun _ => rfl) cols rows z

theorem place_same (floats : List Float) (cols rows : Nat)
    (z : floats.map Float.z = List.range floats.length) (inside : ∀ float ∈ floats, float.Inside cols rows)
    (narrow : cols ≤ maxDimension) (short : rows ≤ maxDimension) :
    place (floats.map Float.input) cols rows = floats := by
  rw [place_input floats cols rows z]
  conv_rhs => rw [← List.map_id floats]
  exact List.map_congr_left fun float member => placeOne_same cols rows float (inside float member) narrow short

end Kido.Tiling
