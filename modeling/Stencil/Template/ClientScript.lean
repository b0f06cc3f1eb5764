import Stencil.Text.Basic
import Stencil.Inline.Embed

/-!
# The scripts for the browser

The text of each script that a page may need, and the name under which it is served.
-/

namespace Stencil

/-- The lines of the script that takes a frame to its next source. -/
def frameFallbackLines : List String :=
  [
    "(function () \x7b",
    "  \"use strict\";",
    "",
    "  function next(frame) \x7b",
    "    var list;",
    "    try \x7b",
    "      list = JSON.parse(frame.getAttribute(\"srcFallbackList\") || \"[]\");",
    "    \x7d catch (e) \x7b",
    "      return;",
    "    \x7d",
    "    var index = parseInt(frame.getAttribute(\"srcFallback\") || \"0\", 10);",
    "    if (isNaN(index) || index >= list.length) \x7b",
    "      return;",
    "    \x7d",
    "    frame.setAttribute(\"srcFallback\", String(index + 1));",
    "    frame.src = list[index];",
    "  \x7d",
    "",
    "  function watch(frame) \x7b",
    "    if (frame.dataset.fallbackBound) \x7b",
    "      return;",
    "    \x7d",
    "    frame.dataset.fallbackBound = \"1\";",
    "    frame.addEventListener(\"error\", function () \x7b",
    "      next(frame);",
    "    \x7d);",
    "    frame.addEventListener(\"load\", function () \x7b",
    "      try \x7b",
    "        var doc = frame.contentDocument;",
    "        if (doc && doc.body && doc.body.childNodes.length === 0) \x7b",
    "          next(frame);",
    "        \x7d",
    "      \x7d catch (e) \x7b",
    "        // cross-origin frames that loaded are fine",
    "      \x7d",
    "    \x7d);",
    "  \x7d",
    "",
    "  function scan() \x7b",
    "    var frames = document.querySelectorAll(\"iframe[srcFallbackList]\");",
    "    for (var i = 0; i < frames.length; i++) \x7b",
    "      watch(frames[i]);",
    "    \x7d",
    "  \x7d",
    "",
    "  if (document.readyState === \"loading\") \x7b",
    "    document.addEventListener(\"DOMContentLoaded\", scan);",
    "  \x7d else \x7b",
    "    scan();",
    "  \x7d",
    "\x7d)();"
  ]

namespace ClientScript

def fileName : ClientScript → Text
  | .frameFallback => "iframe_fallback.js"

def source : ClientScript → Text
  | .frameFallback => frameFallbackLines.flatMap fun line => line.toList ++ ['\n']

end ClientScript

end Stencil
