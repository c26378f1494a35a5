/-! # Export settings — colors, cycles and layout -/

namespace Flowchart

/-- The colors of subgraphs unless others are given. -/
def defaultPalette : List String :=
  ["#4e79a7", "#f28e2b", "#e15759", "#76b7b2", "#59a14f", "#edc948", "#b07aa1", "#ff9da7",
   "#9c755f", "#bab0ac"]

/-- The settings of an export. -/
structure ExportConfig where
  /-- The colors of subgraphs, used again from the first when they run out. -/
  palette : List String := defaultPalette
  /-- Whether the cycles are listed. -/
  includeCycles : Bool := true
  /-- Whether the output is laid out over lines. -/
  pretty : Bool := true
deriving DecidableEq, Repr

/-- The color of the subgraph at `index`; none when there are no colors. -/
def ExportConfig.colorFor? (config : ExportConfig) (index : Nat) : Option String :=
  config.palette[index % config.palette.length]?

/-- With colors there is one for every subgraph. -/
theorem ExportConfig.isSome_colorFor? {config : ExportConfig} (h : config.palette ≠ [])
    (index : Nat) : (config.colorFor? index).isSome = true := by
  have := Nat.mod_lt index (List.length_pos_iff.2 h)
  simp [colorFor?, this]

end Flowchart
