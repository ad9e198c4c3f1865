/-!
# Lines

A text is cut into lines at its line feeds. A carriage return in front of a line feed belongs to
the line end, and what stands behind the last line feed is a line only if it is not empty. The
cut is the same for characters and for bytes, so it is defined for any kind of unit. So the command
line cuts its standard input and its files.
-/

namespace Reckon.Text

/-- The line without a carriage return at its end. -/
def withoutReturn [DecidableEq α] (carriageReturn : α) (line : List α) : List α :=
  if line.getLast? = some carriageReturn then line.dropLast else line

/-- The lines of a text. -/
def lines [DecidableEq α] (lineFeed carriageReturn : α) (text : List α) : List (List α) :=
  let pieces := text.splitOn lineFeed
  pieces.dropLast.map (withoutReturn carriageReturn) ++ pieces.getLast?.toList.filter (· ≠ [])

end Reckon.Text
