import AppBuilder.Json.Decode
import AppBuilder.Toml

/-!
Settings of the engine.

`Config` has three parts: the layout grid, drop highlights and evaluation limits. It is
read from TOML or JSON; a missing setting takes its default, and an unknown one is
refused.
-/

namespace AppBuilder

/-- The column grid of a container. -/
structure LayoutConfig where
  /-- Columns across a container. -/
  gridColumns : Int := 64
  /-- Rows left empty above the first layer. -/
  containerPadding : Int := 0
deriving DecidableEq, Repr

/-- Measures of drop highlights, in pixels. -/
structure HighlightConfig where
  /-- Thickness of a bar. -/
  barThickness : Float := 4
  /-- Inset of bars anchored on a container edge. -/
  dragMargin : Float := 4
  /-- Gap between a vertical bar and the child it precedes. -/
  childGap : Float := 8
  /-- Distance past which the direction penalty applies. -/
  proximityThreshold : Float := 20
  /-- Offset added to candidates behind the direction of travel. -/
  directionPenalty : Float := 2000
  /-- Share of the container width that a row may occupy before its empty buckets stop
  offering a bar. -/
  rowOverflowThreshold : Float := 0.95
deriving DecidableEq

/-- Limits of evaluation. -/
structure EvalConfig where
  /-- Operations allowed per expression; zero for no limit. -/
  maxOperations : Nat := 0
  /-- How deep calls in a script may nest. -/
  maxCallLevels : Nat := 64
  /-- Snapshots kept per history. -/
  replayHistory : Nat := 100
deriving DecidableEq, Repr

/-- All settings. -/
structure Config where
  layout : LayoutConfig := {}
  highlight : HighlightConfig := {}
  eval : EvalConfig := {}
deriving DecidableEq

open Decode

def LayoutConfig.ofJson? : Decoder LayoutConfig :=
  strictRecord ["grid_columns", "container_padding"] do
    let base : LayoutConfig := {}
    let gridColumns ← defaulted "grid_columns" base.gridColumns int32
    let containerPadding ← defaulted "container_padding" base.containerPadding int32
    return { gridColumns, containerPadding }

def LayoutConfig.toJson (c : LayoutConfig) : Json := .object [
  ("grid_columns", .int c.gridColumns),
  ("container_padding", .int c.containerPadding)]

def HighlightConfig.ofJson? : Decoder HighlightConfig :=
  strictRecord ["bar_thickness", "drag_margin", "child_gap", "proximity_threshold",
      "direction_penalty", "row_overflow_threshold"] do
    let base : HighlightConfig := {}
    let barThickness ← defaulted "bar_thickness" base.barThickness float
    let dragMargin ← defaulted "drag_margin" base.dragMargin float
    let childGap ← defaulted "child_gap" base.childGap float
    let proximityThreshold ← defaulted "proximity_threshold" base.proximityThreshold float
    let directionPenalty ← defaulted "direction_penalty" base.directionPenalty float
    let rowOverflowThreshold ← defaulted "row_overflow_threshold" base.rowOverflowThreshold float
    return { barThickness, dragMargin, childGap, proximityThreshold, directionPenalty,
             rowOverflowThreshold }

def HighlightConfig.toJson (c : HighlightConfig) : Json := .object [
  ("bar_thickness", .real c.barThickness),
  ("drag_margin", .real c.dragMargin),
  ("child_gap", .real c.childGap),
  ("proximity_threshold", .real c.proximityThreshold),
  ("direction_penalty", .real c.directionPenalty),
  ("row_overflow_threshold", .real c.rowOverflowThreshold)]

def EvalConfig.ofJson? : Decoder EvalConfig :=
  strictRecord ["max_operations", "max_call_levels", "replay_history"] do
    let base : EvalConfig := {}
    let maxOperations ← defaulted "max_operations" base.maxOperations nat64
    let maxCallLevels ← defaulted "max_call_levels" base.maxCallLevels nat64
    let replayHistory ← defaulted "replay_history" base.replayHistory nat64
    return { maxOperations, maxCallLevels, replayHistory }

def EvalConfig.toJson (c : EvalConfig) : Json := .object [
  ("max_operations", .nat c.maxOperations),
  ("max_call_levels", .nat c.maxCallLevels),
  ("replay_history", .nat c.replayHistory)]

def Config.ofJson? : Decoder Config :=
  strictRecord ["layout", "highlight", "eval"] do
    let layout ← defaulted "layout" {} LayoutConfig.ofJson?
    let highlight ← defaulted "highlight" {} HighlightConfig.ofJson?
    let eval ← defaulted "eval" {} EvalConfig.ofJson?
    return { layout, highlight, eval }

def Config.toJson (c : Config) : Json := .object [
  ("layout", c.layout.toJson),
  ("highlight", c.highlight.toJson),
  ("eval", c.eval.toJson)]

/-- Read all settings from TOML. -/
def Config.ofToml? (text : String) : Option Config := (Toml.parse? text).bind Config.ofJson?

end AppBuilder
