import CodeAtlas.View.Pointer

namespace CodeAtlas

structure Tooltip where
  isOpen : Bool
  lastOpen : Option FrameNumber

namespace Tooltip

def closed : Tooltip := ⟨false, none⟩

def delay : Float32 := 0.5

/-- How long after it has closed the text comes up again at once, in seconds. -/
def grace : Float32 := 0.2

def clickGrace : Float32 := 0.1

/-- Whether the text may come up over something that the pointer is on. Scrolling and clicks put it
off, and so does a drag unless the text is there already and the pointer stays in the area. -/
def mayOpen (t : Tooltip) (area : Area) (p : Pointer) : Bool :=
  let scroll := p.frame.sinceLast p.lastScroll
  let click := p.frame.sinceLast p.lastClick
  let move := p.frame.sinceLast p.lastMove
  let rest := Number.least (Number.least scroll move) click
  let isKept := t.isOpen && p.position.any area.contains
  let isDue := t.isOpen || p.frame.sinceLast t.lastOpen < grace || !p.isMoving && rest ≥ delay
  scroll ≥ delay && !(click < move + clickGrace) &&
    (isKept || isDue && !p.button.any (·.strayed))

/-- The tooltip after a frame, and whether its text is seen. The first frame ever only measures
it. -/
def step (t : Tooltip) (area : Area) (p : Pointer) (isWanted : Bool) : Tooltip × Bool :=
  if isWanted && t.mayOpen area p then (⟨true, some p.frame⟩, t.lastOpen.isSome)
  else ({ t with isOpen := false }, false)

end Tooltip

end CodeAtlas
