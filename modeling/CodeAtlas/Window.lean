import CodeAtlas.Explorer
import CodeAtlas.Panel.Sidebar
import CodeAtlas.View.Canvas

namespace CodeAtlas

/-- A click on a menu item: its events go to the end of the queue, and the queue is dispatched. -/
def Explorer.click (e : Explorer) (queue : EventQueue) (id : Nat) (now : Instant) : Explorer :=
  let (menu, events) := Sidebar.activate e.menu id
  ((events.foldl EventQueue.publish queue).dispatch (handle now) { e with menu := menu }).1

/-- A viewer on the screen. What its parts have to say to each other waits in a queue. -/
structure Window where
  explorer : Explorer
  canvas : Canvas
  queue : EventQueue

namespace Window

def opened (e : Explorer) : Window := ⟨e, .fresh, .empty⟩

inductive Step where
  /-- Another part of the viewer publishes an event. -/
  | publish (event : Event)
  | advance (now : Instant)
  | activate (id : Nat)
  | frame (area : Area) (touch : Touch)
  | deliver (now : Instant)

def painted (w : Window) (area : Area) (touch : Touch) : Canvas × View × List Event × Picture :=
  w.canvas.frame w.explorer.graph w.explorer.palette w.explorer.run.positions area touch
    w.explorer.view

def publishes (w : Window) (area : Area) (touch : Touch) : List Event :=
  (w.painted area touch).2.2.1

def step (w : Window) : Step → Window
  | .publish event => { w with queue := w.queue.publish event }
  | .advance now => { w with
      explorer := (w.explorer.advance now).1
      queue := (w.explorer.advance now).2.foldl EventQueue.publish w.queue }
  | .activate id => { w with explorer := w.explorer.activate id }
  | .frame area touch => {
      explorer := { w.explorer with view := (w.painted area touch).2.1 }
      canvas := (w.painted area touch).1
      queue := (w.publishes area touch).foldl EventQueue.publish w.queue }
  | .deliver now =>
    match w.queue.take? with
    | none => w
    | some (event, queue) => { w with explorer := w.explorer.handle now event, queue := queue }

def after (w : Window) (steps : List Step) : Window :=
  steps.foldl step w

end Window

end CodeAtlas
