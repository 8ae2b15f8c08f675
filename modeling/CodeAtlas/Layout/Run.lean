import CodeAtlas.Layout.Simulation
import CodeAtlas.Time

namespace CodeAtlas

/-- A layout that goes on frame by frame and stops for good after a fixed time. -/
structure LayoutRun where
  simulation : Simulation
  startedAt : Instant
  autoStop : Duration
  stopped : Bool

namespace LayoutRun

def start (simulation : Simulation) (autoStop : Duration) (now : Instant) : LayoutRun :=
  ⟨simulation, now, autoStop, false⟩

/-- One frame: the run stops when its time is over, and ticks unless it has settled. The second
result tells whether it has ticked. -/
def step (r : LayoutRun) (now : Instant) : LayoutRun × Bool :=
  if r.stopped then (r, false)
  else if r.autoStop ≤ now.since r.startedAt then ({ r with stopped := true }, false)
  else if r.simulation.isSettled then (r, false)
  else ({ r with simulation := r.simulation.tick }, true)

def remaining (r : LayoutRun) (now : Instant) : Duration :=
  r.autoStop - now.since r.startedAt

def resize (r : LayoutRun) (viewport : Point) : LayoutRun :=
  { r with simulation := r.simulation.setCenter viewport.half }

def positions (r : LayoutRun) : List Point :=
  r.simulation.positions

end LayoutRun

end CodeAtlas
